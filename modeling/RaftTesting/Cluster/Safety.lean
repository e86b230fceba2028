import RaftTesting.Cluster.HostInv
import RaftTesting.Cluster.Start

namespace RaftTesting

open Consensus

theorem Host.Fresh.hosted {B : Base Entry} {V : JointConfig} {i : Nat} {H : Host}
    (hf : H.Fresh B V i) : Hosted B (Hist.init B) i H := by
  have hbase : Coherent (Hist.init B).llog B.log := by
    intro k _ hk
    rw [show (Hist.init B).llog (termAt B.log k)=B.log from if_pos (B.bound k)]
    exact .refl hk
  have hlog : LogInv B (Hist.init B).lead (Hist.init B).llog H.rn.raft.term
      H.rn.raft.raftLog.all := by
    rw [hf.log]
    refine ⟨hbase,List.prefix_rfl,fun k => (B.bound k).trans hf.term,fun k hk => ?_⟩
    exact absurd (B.bound k) (Nat.not_le.mpr hk)
  have hrole : H.rn.raft.core.node.role=.follower := by
    change H.rn.raft.state.role=_
    rw [hf.state]
    rfl
  have hnot : ∀ {r : Consensus.Role}, r≠.follower → H.rn.raft.core.node.role≠r :=
    fun hr he => hr (he.symm.trans hrole)
  refine ⟨⟨hf.id,hf.pos,?_,hf.whole,?_,?_⟩,?_,?_,?_⟩
  · exact {
      log := hlog
      base := hf.term
      leader := fun hr => absurd hr (hnot nofun)
      matched := fun hr => absurd hr (hnot nofun)
      candidate := fun hr => absurd hr (hnot nofun)
      votes := fun hr => absurd hr (hnot nofun)
      voted := nofun
      cand := nofun
      acked := fun _ h0 => absurd h0 (Nat.lt_irrefl 0)
      holds := fun T k hk => .inl (Nat.le_zero.mp hk ▸ .zero _ _)
      commit := by
        refine ⟨B.term,hf.term,?_,?_⟩
        · exact hf.committed.trans (if_pos rfl).ge
        · change Covers _ H.rn.raft.raftLog.all _
          rw [hf.log,show (Hist.init B).llog B.term=B.log from if_pos le_rfl]
          exact .refl hf.committed }
  · intro hl
    cases hf.state.symm.trans hl
  · intro m hm
    change m ∈ H.rn.raft.msgs at hm
    rw [hf.msgs] at hm
    cases hm
  · have hcov : H.rn.raft.raftLog.storage.stored=
        B.log.take H.rn.raft.raftLog.storage.stored.length := List.prefix_iff_eq_take.mp hf.stored
    rw [hcov]
    exact hbase.take _
  · intro rd hrd
    cases hf.pending.symm.trans hrd
  · intro rd hrd
    cases hf.pending.symm.trans hrd

theorem Host.Fresh.inv {B : Base Entry} {V : JointConfig} {i : Nat} {H : Host}
    (hf : H.Fresh B V i) : HostInv B V (Hist.init B) i H :=
  ⟨hf.hosted,hf.voters,fun hn => absurd hf.toApply hn⟩

/-- The hosts, the history they share, and the network between them. -/
structure ClusterInv (B : Base Entry) (V : JointConfig) (h : Hist Entry) (c : Cluster) : Prop where
  hist : HistInv B h
  quorate : h.Quorate B V.QuorumOf
  hosts : ∀ i H, c.hosts.get? i=some H → HostInv B V h i H
  net : ∀ m ∈ c.net, m.Ok h ∧ m.Stamped
  acked : ∀ T p, 0<h.ack T p → ∃ H, c.hosts.get? p=some H

namespace Cluster

variable {B : Base Entry} {V : JointConfig} {h h' : Hist Entry} {c c' : Cluster}

theorem Init.inv (hi : c.Init B V) : ClusterInv B V (Hist.init B) c := by
  refine ⟨.init B,⟨nofun,?_⟩,fun i H hH => (hi.hosts i H hH).inv,?_,
    fun _ _ h0 => absurd h0 (Nat.lt_irrefl 0)⟩
  · intro T hT hc
    exact absurd (if_neg (Nat.ne_of_gt hT)) hc
  · intro m hm
    rw [hi.net] at hm
    cases hm

/-- A message that is delivered was sent, and to this host. -/
theorem given_of_enabled (hi : ClusterInv B V h c) {i : Nat} {e : Event}
    (hen : c.enabled i e=true) (m : Message) (he : e=.recv m) : Given h i m := by
  subst he
  simp only [enabled,Bool.and_eq_true,decide_eq_true_eq] at hen
  exact ⟨(hi.net m hen.1).1,(hi.net m hen.1).2,fun _ => hen.2⟩

section

variable [Raftpb]

theorem act_inv (hne : V.NonEmpty) (hi : ClusterInv B V h c) {i : Nat} {e : Event}
    (ha : c.act i e=.ok c') (hf : c'.fixed V=true) :
    ∃ h', h.Grown i h' ∧ ClusterInv B V h' c' := by
  unfold act at ha
  split at ha
  · cases ha
    exact ⟨h,.refl i h,hi⟩
  · rename_i H hH
    split at ha
    · rename_i hen
      obtain ⟨⟨H',ms⟩,hact,ha⟩ := bind_eq_ok.mp ha
      cases ha
      have hv : H'.rn.raft.prs.config.voters=V :=
        voters_of_fixed hf (SortedMap.get?_insert_self ..)
      obtain ⟨h',s⟩ := (hi.hosts i H hH).act hne hi.hist hi.quorate (given_of_enabled hi hen)
        hact hv
      refine ⟨h',s.grown,⟨s.hist,s.quorate,?_,?_,?_⟩⟩
      · intro j J hJ
        dsimp only at hJ
        rw [SortedMap.get?_insert] at hJ
        split_ifs at hJ with hji
        · cases hJ
          exact hji ▸ s.host
        · have hJi := hi.hosts j J hJ
          exact ⟨hJi.toHosted.frame hi.hist s.grown hji,hJi.voters,hJi.toApply⟩
      · intro m hm
        rcases List.mem_append.mp hm with hm | hm
        · exact ⟨(hi.net m hm).1.mono s.grown,(hi.net m hm).2⟩
        · exact s.said m hm
      · intro T p h0
        dsimp only
        rw [SortedMap.get?_insert]
        split_ifs with hpi
        · exact ⟨H',rfl⟩
        · rw [s.grown.ackNew T p hpi] at h0
          exact hi.acked T p h0
    · cases ha
      exact ⟨h,.refl i h,hi⟩

/-- Along a run the invariant holds, and a leader once elected stays on record. -/
theorem play_inv (hne : V.NonEmpty) {events : List (Nat × Event)} (hi : ClusterInv B V h c)
    (hp : c.play V events=some c') :
    ∃ h', (∀ T i, h.lead T=some i → h'.lead T=some i) ∧ ClusterInv B V h' c' := by
  induction events generalizing c h with
  | nil =>
    cases hp
    exact ⟨h,fun _ _ => id,hi⟩
  | cons ev events ih =>
    obtain ⟨i,e⟩ := ev
    simp only [play] at hp
    split at hp
    · cases hp
    · rename_i c1 ha
      split at hp
      · rename_i hf
        obtain ⟨h1,g,hi1⟩ := act_inv hne hi ha hf
        obtain ⟨h2,hl,hi2⟩ := ih hi1 hp
        exact ⟨h2,fun T i hT => hl T i (g.lead_some hT),hi2⟩
      · cases hp

/-- Election safety: over a whole run, a term has one leader. -/
theorem one_leader_per_term (hne : V.NonEmpty) {c0 c1 c2 : Cluster} (h0 : c0.Init B V)
    {events events' : List (Nat × Event)} (h1 : c0.play V events=some c1)
    (h2 : c1.play V events'=some c2) {i j : Nat} {I J : Host} (hI : c1.hosts.get? i=some I)
    (hJ : c2.hosts.get? j=some J) (hlI : I.rn.raft.state=.stateLeader)
    (hlJ : J.rn.raft.state=.stateLeader) (hterm : I.rn.raft.term=J.rn.raft.term) : i=j := by
  obtain ⟨h1,_,hi1⟩ := play_inv hne h0.inv h1
  obtain ⟨h2,hl,hi2⟩ := play_inv hne hi1 h2
  have hi : h1.lead I.rn.raft.term=some i := ((hi1.hosts i I hI).core.leader hlI).1
  have hj : h2.lead J.rn.raft.term=some j := ((hi2.hosts j J hJ).core.leader hlJ).1
  rw [hterm] at hi
  exact Option.some.inj ((hl _ _ hi).symm.trans hj)

end

section

local instance : Raftpb := Wire.small

theorem one_leader_per_term_three : firstLeader.rn.raft.state=.stateLeader ∧
    leaderAfter.rn.raft.state=.stateLeader ∧ firstLeader.rn.raft.term=leaderAfter.rn.raft.term ∧
    (1 : Nat)=1 := by
  have hI : firstLeader.rn.raft.state=.stateLeader := by decide +kernel
  have hJ : leaderAfter.rn.raft.state=.stateLeader := by decide +kernel
  have ht : firstLeader.rn.raft.term=leaderAfter.rn.raft.term := by decide +kernel
  exact ⟨hI,hJ,ht,one_leader_per_term threeVoters_nonEmpty three_init elected_eq committedFirst_eq
    firstLeader_eq leaderAfter_eq hI hJ ht⟩

end

section

variable [Raftpb]

theorem act_quiet (hne : V.NonEmpty) (hi : ClusterInv B V h c) (i : Nat) (e : Event) :
    Quiet true (c.act i e) := by
  unfold act
  split
  · exact avoids_ok _
  · rename_i H hH
    split
    · rename_i hen
      exact ((hi.hosts i H hH).act_quiet hne hi.hist hi.quorate (given_of_enabled hi hen)).andThen
        (fun _ => avoids_ok _)
    · exact avoids_ok _

/-- State machine safety: what two hosts have committed is the same, and no event can make
the log of a host panic over entries that it is given. -/
theorem committed_agree (hne : V.NonEmpty) {c0 c : Cluster} (h0 : c0.Init B V)
    {events : List (Nat × Event)} (h1 : c0.play V events=some c) :
    (∀ a b A B, c.hosts.get? a=some A → c.hosts.get? b=some B → ∀ k,
      k < min A.rn.raft.raftLog.committed B.rn.raft.raftLog.committed → ∃ e,
      A.rn.raft.raftLog.all[k]?=some e ∧ B.rn.raft.raftLog.all[k]?=some e) ∧
    ∀ i e, c.act i e≠.error .conflictWithCommitted ∧ c.act i e≠.error .appendOutOfRange := by
  obtain ⟨h,_,hi⟩ := play_inv hne h0.inv h1
  refine ⟨?_,?_⟩
  · intro a b A B hA hB k hk
    have hcov : Covers (k+1) A.rn.raft.raftLog.all B.rn.raft.raftLog.all :=
      (hi.hosts a A hA).core.node.commit_agree hi.hist (hi.hosts b B hB).core.node
        (show k+1≤A.rn.raft.raftLog.committed by omega)
        (show k+1≤B.rn.raft.raftLog.committed by omega)
    have hlt : k<A.rn.raft.raftLog.all.length := hcov.length_le
    refine ⟨A.rn.raft.raftLog.all[k],List.getElem?_eq_getElem hlt,?_⟩
    have htake := congrArg (·[k]?) hcov.2
    simp only [List.getElem?_take,Nat.lt_succ_self,if_true] at htake
    rw [← htake]
    exact List.getElem?_eq_getElem hlt
  · intro i e
    have hq := act_quiet hne hi i e
    exact ⟨fun he => Bool.noConfusion (hq _ he),fun he => Bool.noConfusion (hq _ he)⟩

end

section

local instance : Raftpb := Wire.small

theorem committed_agree_three : (∃ e, leaderAfter.rn.raft.raftLog.all[3]?=some e ∧
    followerAfter.rn.raft.raftLog.all[3]?=some e) ∧
    committedFirst.act 3 .tick≠.error .conflictWithCommitted := by
  obtain ⟨hagree,hquiet⟩ := committed_agree threeVoters_nonEmpty three_init both_eq
  exact ⟨hagree 1 2 _ _ leaderAfter_eq followerAfter_eq 3 (by decide +kernel),(hquiet 3 .tick).1⟩

end

section

variable [Raftpb]

/-- Log matching: an entry that two logs hold at the same index with the same term has
the same entries in front of it in both, and each log is numbered and ordered by term. -/
theorem logs_match (hne : V.NonEmpty) {c0 c : Cluster} (h0 : c0.Init B V)
    {events : List (Nat × Event)} (h1 : c0.play V events=some c) :
    (∀ i j I J, c.hosts.get? i=some I → c.hosts.get? j=some J → ∀ (k : Nat) (e e' : Entry),
      I.rn.raft.raftLog.all[k]?=some e → J.rn.raft.raftLog.all[k]?=some e' → e.term=e'.term →
      I.rn.raft.raftLog.all.take (k+1)=J.rn.raft.raftLog.all.take (k+1)) ∧
    ∀ i I, c.hosts.get? i=some I → ∀ (k : Nat) (e : Entry), I.rn.raft.raftLog.all[k]?=some e →
      e.index=k+1 ∧ e.term≤I.rn.raft.term ∧
      ∀ (j : Nat) (e' : Entry), j≤k → I.rn.raft.raftLog.all[j]?=some e' → e'.term≤e.term := by
  obtain ⟨h,_,hi⟩ := play_inv hne h0.inv h1
  have hterm : ∀ {l : List Entry} {k : Nat} {e : Entry}, l[k]?=some e →
      k+1≤l.length ∧ termAt l (k+1)=e.term := by
    intro l k e hk
    refine ⟨(List.getElem?_eq_some_iff.mp hk).1,?_⟩
    simp only [termAt,hk]
    rfl
  refine ⟨?_,?_⟩
  · intro i j I J hI hJ k e e' hk hk' ht
    have hcI := (hi.hosts i I hI).core.node.log.coherent
    have hcJ := (hi.hosts j J hJ).core.node.log.coherent
    obtain ⟨hl,hte⟩ := hterm hk
    obtain ⟨hl',hte'⟩ := hterm hk'
    exact (hcI.covers hcJ hl hl' (hte.trans (ht.trans hte'.symm))).2
  · intro i I hI k e hk
    have hn := (hi.hosts i I hI).core
    obtain ⟨hl,hte⟩ := hterm hk
    refine ⟨?_,?_,?_⟩
    · have := hn.log.numbered k e hk
      omega
    · exact hte ▸ hn.node.log.bound (k+1)
    · intro j e' hj hk'
      rw [← (hterm hk').2,← hte]
      exact hi.hist.sorted hn.node.log (by omega) hl

end

section

local instance : Raftpb := Wire.small

theorem logs_match_three : leaderAfter.rn.raft.raftLog.all.take 4=
    followerAfter.rn.raft.raftLog.all.take 4 := by
  have hterm : ((leaderAfter.rn.raft.raftLog.all[3]?).map (·.term))=
      (followerAfter.rn.raft.raftLog.all[3]?).map (·.term) := by decide +kernel
  obtain ⟨e,he⟩ := Option.isSome_iff_exists.mp
    (show (leaderAfter.rn.raft.raftLog.all[3]?).isSome by decide +kernel)
  obtain ⟨e',he'⟩ := Option.isSome_iff_exists.mp
    (show (followerAfter.rn.raft.raftLog.all[3]?).isSome by decide +kernel)
  rw [he,he'] at hterm
  exact (logs_match threeVoters_nonEmpty three_init both_eq).1 1 2 _ _ leaderAfter_eq
    followerAfter_eq 3 e e' he he' (Option.some.inj hterm)

end

section

/-- What a leader has committed in its own term, a quorum of hosts has stored. -/
theorem stored_by_quorum (hi : ClusterInv B V h c) {i : Nat} {I : Host}
    (hI : c.hosts.get? i=some I) (hl : I.rn.raft.state=.stateLeader)
    (ht : termAt I.rn.raft.raftLog.all I.rn.raft.raftLog.committed=I.rn.raft.term) :
    V.QuorumOf (fun p => ∃ P, c.hosts.get? p=some P ∧
      Covers I.rn.raft.raftLog.committed P.rn.raft.raftLog.all I.rn.raft.raftLog.all) := by
  have hc := (hi.hosts i I hI).core
  obtain ⟨hlead,hlog⟩ := hc.leader hl
  change h.lead I.rn.raft.term=some i at hlead
  change I.rn.raft.raftLog.all=h.llog I.rn.raft.term at hlog
  have hbase := (hi.hist.lead _ i hlead).1
  obtain ⟨T,hT,hcm,hcov⟩ := hc.node.commit
  change I.rn.raft.raftLog.committed≤h.comm T at hcm
  change T≤I.rn.raft.term at hT
  have hTeq : T=I.rn.raft.term := by
    by_contra hne
    have hcovt : termAt I.rn.raft.raftLog.all I.rn.raft.raftLog.committed=
        termAt (h.llog T) I.rn.raft.raftLog.committed := hcov.termAt_eq le_rfl
    rw [ht] at hcovt
    by_cases hb : T≤B.term
    · rw [hi.hist.base T hb] at hcovt
      have := B.bound I.rn.raft.raftLog.committed
      omega
    · cases hlT : h.lead T with
      | none =>
        rw [hi.hist.idle T (by omega) hlT] at hcovt
        have : termAt ([] : List Entry) I.rn.raft.raftLog.committed=0 := by
          cases I.rn.raft.raftLog.committed <;> rfl
        omega
      | some j =>
        have := (hi.hist.llog_inv (hlT ▸ rfl : (h.lead T).isSome)).bound I.rn.raft.raftLog.committed
        omega
  subst hTeq
  have hpos : I.rn.raft.raftLog.committed≠0 := by
    intro h0
    rw [h0] at ht
    change 0=_ at ht
    omega
  refine (hi.quorate.ackers _ hbase (by omega)).mono ?_
  intro p hp
  have hack := hi.hist.ackers _ p hp
  obtain ⟨P,hP⟩ := hi.acked _ p (show 0<h.ack I.rn.raft.term p by omega)
  refine ⟨P,hP,?_⟩
  rw [hlog]
  rcases (hi.hosts p P hP).core.node.holds _ _ (hcm.trans hack) with hcov' | ⟨T',hlt,_,hl',hbad⟩
  · exact hcov'
  · exact absurd ((hi.hist.complete _ T' hlt hl').mono hcm) hbad

variable [Raftpb]

/-- No false acknowledgement: as far as a leader believes a peer of its own term to
match, it does; and what the leader commits in its term is stored by a quorum. -/
theorem matched_is_stored (hne : V.NonEmpty) {c0 c : Cluster} (h0 : c0.Init B V)
    {events : List (Nat × Event)} (h1 : c0.play V events=some c) {i : Nat} {I : Host}
    (hI : c.hosts.get? i=some I) (hl : I.rn.raft.state=.stateLeader) :
    (∀ p P pr, c.hosts.get? p=some P → I.rn.raft.prs.progress.get? p=some pr →
      P.rn.raft.term=I.rn.raft.term → pr.matchIndex≤I.rn.raft.raftLog.lastIndex ∧
      pr.matchIndex≤P.rn.raft.raftLog.all.length ∧
      P.rn.raft.raftLog.all.take pr.matchIndex=I.rn.raft.raftLog.all.take pr.matchIndex) ∧
    (termAt I.rn.raft.raftLog.all I.rn.raft.raftLog.committed=I.rn.raft.term →
      V.QuorumOf (fun p => ∃ P, c.hosts.get? p=some P ∧
        I.rn.raft.raftLog.committed≤P.rn.raft.raftLog.all.length ∧
        P.rn.raft.raftLog.all.take I.rn.raft.raftLog.committed=
          I.rn.raft.raftLog.all.take I.rn.raft.raftLog.committed)) := by
  obtain ⟨h,_,hi⟩ := play_inv hne h0.inv h1
  have hc := (hi.hosts i I hI).core
  refine ⟨?_,?_⟩
  · intro p P pr hP hget hterm
    have hcP := (hi.hosts p P hP).core
    have hack : pr.matchIndex≤h.ack P.rn.raft.term p := hterm ▸ hc.matched_le hl hget
    have hcov : Covers pr.matchIndex P.rn.raft.raftLog.all (h.llog P.rn.raft.term) :=
      hcP.node.holds_self hack
    rw [hterm,← show I.rn.raft.raftLog.all=h.llog I.rn.raft.term from (hc.leader hl).2] at hcov
    refine ⟨?_,hcov.length_le,hcov.2⟩
    rw [show I.rn.raft.raftLog.lastIndex=_ from hc.log.lastIndex_eq]
    exact hcov.1
  · intro ht
    refine (stored_by_quorum hi hI hl ht).mono ?_
    rintro p ⟨P,hP,hcov⟩
    exact ⟨P,hP,hcov.length_le,hcov.2⟩

end

section

local instance : Raftpb := Wire.small

theorem matched_is_stored_three : 4≤followerAfter.rn.raft.raftLog.all.length ∧
    followerAfter.rn.raft.raftLog.all.take 4=leaderAfter.rn.raft.raftLog.all.take 4 ∧
    threeVoters.QuorumOf (fun p => ∃ P, committedFirst.hosts.get? p=some P ∧
      leaderAfter.rn.raft.raftLog.committed≤P.rn.raft.raftLog.all.length ∧
      P.rn.raft.raftLog.all.take leaderAfter.rn.raft.raftLog.committed=
        leaderAfter.rn.raft.raftLog.all.take leaderAfter.rn.raft.raftLog.committed) := by
  obtain ⟨hmatched,hquorum⟩ := matched_is_stored threeVoters_nonEmpty three_init both_eq
    leaderAfter_eq (by decide +kernel)
  have hm : (leaderAfter.rn.raft.prs.progress.get? 2).map (·.matchIndex)=some 4 := by
    decide +kernel
  obtain ⟨pr,hpr,hfour⟩ := Option.map_eq_some_iff.mp hm
  have hstored := hmatched 2 _ pr followerAfter_eq hpr (by decide +kernel)
  rw [hfour] at hstored
  exact ⟨hstored.2.1,hstored.2.2,hquorum (by decide +kernel)⟩

end

end Cluster

end RaftTesting
