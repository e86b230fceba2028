import RaftTesting.Consensus.History

namespace RaftTesting.Consensus

variable {E : Type} [Termed E]

/-- What a node and the history know of each other. -/
structure NodeInv (B : Base E) (h : Hist E) (i : Nat) (n : Node E) : Prop where
  log : LogInv B h.lead h.llog n.term n.log
  base : B.term≤n.term
  leader : n.role=.leader →
    h.lead n.term=some i ∧ n.log=h.llog n.term ∧ h.comm n.term≤n.commit
  matched : n.role=.leader → ∀ j, n.matched j≤h.ack n.term j
  candidate : n.role=.candidate →
    n.vote=some i ∧ h.voted n.term i i ∧ h.cand n.term i=some n.log ∧ h.lead n.term≠some i
  votes : n.role=.candidate → ∀ j, n.votes j → h.voted n.term j i
  voted : ∀ T c, h.voted T i c → T≤n.term ∧ (T=n.term → n.vote=some c)
  cand : ∀ T l, h.cand T i=some l → T≤n.term
  acked : ∀ T, 0<h.ack T i → T≤n.term
  holds : ∀ T k, k≤h.ack T i → Covers k n.log (h.llog T) ∨ h.Bad T k n.term
  commit : ∃ T, T≤n.term ∧ n.commit≤h.comm T ∧ Covers n.commit n.log (h.llog T)

namespace NodeInv

variable {B : Base E} {h h' : Hist E} {i : Nat} {n : Node E}

/-- A step of another node does not disturb this one. -/
theorem frame {j : Nat} (hh : HistInv B h) (hn : NodeInv B h i n) (g : h.Grown j h')
    (hij : i≠j) : NodeInv B h' i n where
  log := hn.log.mono g le_rfl
  base := hn.base
  leader := by
    intro hr
    obtain ⟨hl,hlog,hcomm⟩ := hn.leader hr
    rw [g.llogNew _ i hl hij,g.commNew _ i hl hij]
    exact ⟨g.lead_some hl,hlog,hcomm⟩
  matched := fun hr p => (hn.matched hr p).trans (g.ack _ p)
  candidate := by
    intro hr
    obtain ⟨hv,hvi,hc,hl⟩ := hn.candidate hr
    refine ⟨hv,g.voted _ i i hvi,g.cand _ i _ hc,?_⟩
    rcases g.lead n.term with he | ⟨_,he⟩
    · rwa [he]
    · rw [he]
      exact fun hji => hij (Option.some.inj hji).symm
  votes := fun hr p hp => g.voted _ p i (hn.votes hr p hp)
  voted := by
    intro T c hv
    rcases g.votedNew T i c hv with hv | hv
    · exact hn.voted T c hv
    · exact absurd hv hij
  cand := fun T l hc => hn.cand T l ((g.candNew T i hij).symm.trans hc)
  acked := fun T h0 => hn.acked T ((g.ackNew T i hij) ▸ h0)
  holds := by
    intro T k hk
    rw [g.ackNew T i hij] at hk
    exact (hn.holds T k hk).imp (.grow (g.llog T)) (.mono g le_rfl (hk.trans (hh.ackLen T i)))
  commit := by
    obtain ⟨T,hT,hc,hcov⟩ := hn.commit
    exact ⟨T,hT,hc.trans (g.comm T),hcov.grow (g.llog T)⟩

/-- What the node has acknowledged to the leader of its own term, it holds. -/
theorem holds_self (hn : NodeInv B h i n) {k : Nat} (hk : k≤h.ack n.term i) :
    Covers k n.log (h.llog n.term) := by
  rcases hn.holds n.term k hk with hc | ⟨T',h1,h2,_⟩
  · exact hc
  · omega

/-- What the node has committed, it shares with the leader of its own term. -/
theorem commit_covers (hh : HistInv B h) (hn : NodeInv B h i n) (hl : (h.lead n.term).isSome) :
    Covers n.commit n.log (h.llog n.term) := by
  obtain ⟨T,hT,hc,hcov⟩ := hn.commit
  exact hcov.trans ((hh.covers_comm hT hl).mono hc).symm

section

variable (hh : HistInv B h) (hn : NodeInv B h i n)
include hh hn

omit hh in
theorem adopt {t : Nat} {vs : Nat → Prop} {ms : Nat → Nat} (ht : n.term<t) :
    NodeInv B h i { n with
      term := t, vote := none, role := .follower, votes := vs, matched := ms } where
  log := hn.log.mono (.refl i h) ht.le
  base := hn.base.trans ht.le
  leader := nofun
  matched := nofun
  candidate := nofun
  votes := nofun
  voted := by
    intro T c hv
    have hT := (hn.voted T c hv).1
    refine ⟨hT.trans ht.le,fun he => ?_⟩
    change T=t at he
    omega
  cand := fun T l hc => (hn.cand T l hc).trans ht.le
  acked := fun T h0 => (hn.acked T h0).trans ht.le
  holds := fun T k hk => (hn.holds T k hk).imp_right (.later ht.le)
  commit := by
    obtain ⟨T,hT,hc⟩ := hn.commit
    exact ⟨T,hT.trans ht.le,hc⟩

theorem stand {ms : Nat → Nat} : h.Grown i (h.stand (n.term+1) i n.log) ∧
    HistInv B (h.stand (n.term+1) i n.log) ∧
    NodeInv B (h.stand (n.term+1) i n.log) i { n with
      term := n.term+1
      vote := some i
      role := .candidate
      votes := fun _ => False
      matched := ms } := by
  have hnew : ∀ l, h.cand (n.term+1) i≠some l :=
    fun l hc => absurd (hn.cand _ l hc) (by omega)
  have hnone := Option.eq_none_iff_forall_ne_some.mpr hnew
  have hself : (h.nominate (n.term+1) i n.log).cand (n.term+1) i=some n.log :=
    if_pos ⟨rfl,rfl⟩
  have g : h.Grown i (h.stand (n.term+1) i n.log) :=
    (h.grown_nominate _ i hnone).trans (Hist.grown_vote _ _ i i)
  have hb := hn.base
  refine ⟨g,?_,?_⟩
  · refine (hh.nominate hnone (by omega) hn.log).vote hself ?_ ?_
    · intro c hv
      exact absurd (hn.voted _ c hv).1 (by omega)
    · intro T1 k _ _ hk _
      exact (hn.holds T1 k hk).imp_right (.later (Nat.le_succ _))
  · refine {
      log := hn.log.mono g (Nat.le_succ _)
      base := hb.trans (Nat.le_succ _)
      leader := nofun
      matched := nofun
      candidate := fun _ => ⟨rfl,.inr ⟨rfl,rfl,rfl⟩,hself,?_⟩
      votes := fun _ _ hf => hf.elim
      voted := ?_
      cand := ?_
      acked := fun T h0 => (hn.acked T h0).trans (Nat.le_succ _)
      holds := fun T k hk => (hn.holds T k hk).imp_right (.later (Nat.le_succ _))
      commit := ?_ }
    · exact fun hl => hnew _ (hh.lead _ i hl).2
    · rintro T c (hv | ⟨rfl,_,rfl⟩)
      · have hT := (hn.voted T c hv).1
        exact ⟨hT.trans (Nat.le_succ _),fun he => absurd he (by change T≠n.term+1; omega)⟩
      · exact ⟨le_rfl,fun _ => rfl⟩
    · intro T l hc
      change (if _ then _ else _)=_ at hc
      split_ifs at hc with he
      · exact he.1.le
      · exact (hn.cand T l hc).trans (Nat.le_succ _)
    · obtain ⟨T,hT,hc⟩ := hn.commit
      exact ⟨T,hT.trans (Nat.le_succ _),hc⟩

theorem vote {c : Nat} {l : List E} (hc : h.cand n.term c=some l)
    (hv : n.vote=none ∨ n.vote=some c) (hup : UpToDate l n.log) :
    HistInv B (h.vote n.term i c) ∧ NodeInv B (h.vote n.term i c) i { n with vote := some c } := by
  have honce : ∀ c', h.voted n.term i c' → c'=c := by
    intro c' hc'
    have he := (hn.voted _ c' hc').2 rfl
    rcases hv with hv | hv <;> cases hv.symm.trans he
    rfl
  refine ⟨hh.vote hc honce ?_,?_⟩
  · intro T1 k hT h0 hk ht
    obtain ⟨hb,hl⟩ := hh.cand _ c l hc
    rcases hn.holds T1 k hk with hcov | hbad
    · exact hh.upToDate (by omega) hl hn.log hup (hh.ackLed T1 i (by omega)) hcov ht
    · exact .inr hbad
  · refine { hn with
      log := hn.log.mono (h.grown_vote _ i c) le_rfl
      candidate := ?_
      votes := fun hr j hj => .inl (hn.votes hr j hj)
      voted := ?_ }
    · intro hr
      obtain ⟨hi,hvi,hrest⟩ := hn.candidate hr
      refine ⟨?_,.inl hvi,hrest⟩
      rcases hv with hv | hv <;> cases hv.symm.trans hi
      rfl
    · rintro T c' (hc' | ⟨rfl,_,rfl⟩)
      · refine ⟨(hn.voted T c' hc').1,?_⟩
        rintro rfl
        rw [honce c' hc']
      · exact ⟨le_rfl,fun _ => rfl⟩

/-- A leader of the term that shares a voter with a candidate would be the candidate. -/
theorem unled {V : Nat → Prop} (hr : n.role=.candidate) (hV : ∀ v, V v → n.votes v)
    (hone : ∀ j, h.lead n.term=some j → ∃ v, V v ∧ h.electors n.term v) :
    h.lead n.term=none := by
  refine Option.eq_none_iff_forall_ne_some.mpr (fun j hj => ?_)
  obtain ⟨v,hv,he⟩ := hone j hj
  have hji := hh.votedOnce _ v j i (hh.electors _ v j hj he) (hn.votes hr v (hV v hv))
  exact (hn.candidate hr).2.2.2 (hji ▸ hj)

theorem win {V vs : Nat → Prop} {ms : Nat → Nat} (hr : n.role=.candidate)
    (hV : ∀ v, V v → n.votes v) (hnone : h.lead n.term=none)
    (hcomp : ∀ T, T<n.term → Covers (h.comm T) n.log (h.llog T))
    (hms : ∀ j, j≠i → ms j=0) (hmi : ms i≤n.log.length) :
    h.Grown i (h.win n.term i n.log V) ∧ HistInv B (h.win n.term i n.log V) ∧
    NodeInv B (h.win n.term i n.log V) i
      { n with role := .leader, votes := vs, matched := ms } := by
  obtain ⟨_,_,hc,_⟩ := hn.candidate hr
  have hvoted : ∀ v, V v → h.voted n.term v i := fun v hv => hn.votes hr v (hV v hv)
  have hnil := hh.idle n.term (hh.cand _ i _ hc).1 hnone
  have hc' := hh.crown hc hnone hvoted hcomp
  have hlead : (h.crown n.term i n.log V).lead n.term=some i := Function.update_self ..
  have hllog : (h.crown n.term i n.log V).llog n.term=n.log := Function.update_self ..
  have g : h.Grown i (h.win n.term i n.log V) :=
    (Hist.grown_crown hnone hnil).trans (Hist.grown_ackTo _ _ i _)
  have hack : ∀ T, T≠n.term → (h.win n.term i n.log V).ack T i=h.ack T i :=
    fun T hT => if_neg (fun he => hT he.1)
  have hackSelf : (h.win n.term i n.log V).ack n.term i=n.log.length := by
    have h0 : h.ack n.term i≤([] : List E).length := hnil ▸ hh.ackLen n.term i
    exact (if_pos ⟨rfl,rfl⟩).trans (Nat.max_eq_right (h0.trans (Nat.zero_le _)))
  refine ⟨g,hc'.ackTo (hlead ▸ rfl) (congrArg List.length hllog).ge
    (fun T' c hv => (hn.voted T' c hv).1),?_⟩
  refine { hn with
    log := hn.log.mono g le_rfl
    leader := fun _ => ⟨hlead,hllog.symm,?_⟩
    matched := ?_
    candidate := nofun
    votes := nofun
    acked := ?_
    holds := ?_
    commit := ?_ }
  · have h0 : h.comm n.term≤([] : List E).length := hnil ▸ hh.commLen n.term
    exact h0.trans (Nat.zero_le _)
  · intro _ j
    by_cases hj : j=i
    · subst hj
      exact hmi.trans hackSelf.ge
    · exact (hms j hj).trans_le (Nat.zero_le _)
  · intro T h0
    by_cases hT : T=n.term
    · exact hT.le
    · exact hn.acked T (hack T hT ▸ h0)
  · intro T k hk
    by_cases hT : T=n.term
    · subst hT
      rw [hackSelf] at hk
      exact .inl (hllog.symm ▸ Covers.refl hk)
    · rw [hack T hT] at hk
      exact (hn.holds T k hk).imp (.grow (g.llog T)) (.mono g le_rfl (hk.trans (hh.ackLen T i)))
  · obtain ⟨T,hT,hcm,hcov⟩ := hn.commit
    exact ⟨T,hT,hcm,hcov.grow (g.llog T)⟩

theorem extend {es : List E} {ms : Nat → Nat} (hr : n.role=.leader)
    (hes : ∀ e ∈ es, termOf e=n.term) (hms : ∀ j, j≠i → ms j≤n.matched j)
    (hmi : ms i≤(n.log++es).length) :
    h.Grown i (h.extend n.term i (n.log++es)) ∧ HistInv B (h.extend n.term i (n.log++es)) ∧
    NodeInv B (h.extend n.term i (n.log++es)) i { n with log := n.log++es, matched := ms } := by
  obtain ⟨hl,hlog,hcomm⟩ := hn.leader hr
  have hT : (h.lead n.term).isSome := hl ▸ rfl
  have hllog : (h.extend n.term i (n.log++es)).llog n.term=n.log++es := Function.update_self ..
  have g : h.Grown i (h.extend n.term i (n.log++es)) :=
    (Hist.grown_grow hl (hlog ▸ List.prefix_append _ es)).trans (Hist.grown_ackTo _ _ i _)
  have hinv : HistInv B (h.extend n.term i (n.log++es)) := by
    have hg := hh.grow hl hes
    rw [← hlog] at hg
    refine hg.ackTo hT ?_ (fun T' c hv => (hn.voted T' c hv).1)
    exact (congrArg List.length hllog).ge
  have hack : ∀ T, T≠n.term → (h.extend n.term i (n.log++es)).ack T i=h.ack T i :=
    fun T hT => if_neg (fun he => hT he.1)
  have hackSelf : (h.extend n.term i (n.log++es)).ack n.term i=(n.log++es).length := by
    refine (if_pos ⟨rfl,rfl⟩).trans (Nat.max_eq_right ((hh.ackLen n.term i).trans ?_))
    rw [← hlog,List.length_append]
    exact Nat.le_add_right _ _
  refine ⟨g,hinv,?_⟩
  refine { hn with
    log := ?_
    leader := fun _ => ⟨hl,hllog.symm,hcomm⟩
    matched := ?_
    candidate := fun hr' => absurd (hr.symm.trans hr') nofun
    votes := fun hr' => absurd (hr.symm.trans hr') nofun
    acked := ?_
    holds := ?_
    commit := ?_ }
  · have := hinv.llog_inv (g.lead_isSome hT)
    rwa [hllog] at this
  · intro _ j
    by_cases hj : j=i
    · subst hj
      exact hmi.trans hackSelf.ge
    · exact ((hms j hj).trans (hn.matched hr j)).trans (g.ack _ j)
  · intro T h0
    by_cases hT : T=n.term
    · exact hT.le
    · exact hn.acked T (hack T hT ▸ h0)
  · intro T k hk
    by_cases hT : T=n.term
    · subst hT
      rw [hackSelf] at hk
      exact .inl (hllog.symm ▸ Covers.refl hk)
    · rw [hack T hT] at hk
      exact (hn.holds T k hk).imp (fun hc => (hc.grow (g.llog T)).append_left)
        (.mono g le_rfl (hk.trans (hh.ackLen T i)))
  · obtain ⟨T,hT,hcm,hcov⟩ := hn.commit
    exact ⟨T,hT,hcm,(hcov.grow (g.llog T)).append_left⟩

theorem commitTo {k : Nat} {A : Nat → Prop} (hr : n.role=.leader) (hlt : n.commit<k)
    (hk : k≤n.log.length) (ht : termAt n.log k=n.term) (hA : ∀ v, A v → k≤n.matched v)
    (hcomp : ∀ T, n.term<T → (h.lead T).isSome → Covers k (h.elog T) (h.llog n.term)) :
    h.Grown i (h.commit n.term k A) ∧ HistInv B (h.commit n.term k A) ∧
    NodeInv B (h.commit n.term k A) i { n with commit := k } := by
  obtain ⟨hl,hlog,hcomm⟩ := hn.leader hr
  have hself : (h.commit n.term k A).comm n.term=k := Function.update_self ..
  have g : h.Grown i (h.commit n.term k A) := Hist.grown_commit hl (by omega)
  refine ⟨g,hh.commit (hlog ▸ hk) (hlog ▸ ht)
    (fun v hv => (hA v hv).trans (hn.matched hr v)) hcomp,?_⟩
  exact { hn with
    log := hn.log.mono g le_rfl
    leader := fun _ => ⟨hl,hlog,hself.le⟩
    commit := ⟨n.term,le_rfl,hself.ge,hlog ▸ Covers.refl hk⟩ }

/-- Acknowledging the leader of its term up to m, once the node's log agrees with it. -/
theorem ackTo {m k : Nat} {l : List E} (hl : (h.lead n.term).isSome)
    (hr : n.role=.follower) (hlog : LogInv B h.lead h.llog n.term l)
    (hm : Covers m l (h.llog n.term))
    (hkeep : ∀ T k, T≤n.term → Covers k n.log (h.llog T) → Covers k (h.llog n.term) (h.llog T) →
      Covers k l (h.llog T))
    (hk : ∃ T, T≤n.term ∧ k≤h.comm T ∧ Covers k l (h.llog T)) :
    HistInv B (h.ackTo n.term i m) ∧
    NodeInv B (h.ackTo n.term i m) i { n with log := l, commit := k } := by
  refine ⟨hh.ackTo hl hm.1 (fun T' c hv => (hn.voted T' c hv).1),?_⟩
  have hack : ∀ T, T≠n.term → (h.ackTo n.term i m).ack T i=h.ack T i :=
    fun T hT => if_neg (fun he => hT he.1)
  have hackSelf : (h.ackTo n.term i m).ack n.term i=max (h.ack n.term i) m := if_pos ⟨rfl,rfl⟩
  refine { hn with
    log := hlog.mono (h.grown_ackTo _ i m) le_rfl
    leader := fun hr' => absurd (hr.symm.trans hr') nofun
    matched := fun hr' => absurd (hr.symm.trans hr') nofun
    candidate := fun hr' => absurd (hr.symm.trans hr') nofun
    votes := fun hr' => absurd (hr.symm.trans hr') nofun
    acked := ?_
    holds := ?_
    commit := hk }
  · intro T h0
    by_cases hT : T=n.term
    · exact hT.le
    · exact hn.acked T (hack T hT ▸ h0)
  · intro T k hk
    by_cases hT : T=n.term
    · subst hT
      rw [hackSelf] at hk
      rcases le_max_iff.mp hk with hk | hk
      · have hc := hn.holds_self hk
        exact .inl (hkeep _ k le_rfl hc (.refl hc.1))
      · exact .inl (hm.mono hk)
    · rw [hack T hT] at hk
      rcases Nat.eq_zero_or_pos k with rfl | h0
      · exact .inl (.zero _ _)
      have hle := hn.acked T (by omega)
      rcases hn.holds T k hk with hc | hb
      · -- the leader of this term has the entries, or it lacks them itself
        by_cases he : Covers k (h.elog n.term) (h.llog T)
        · have hpre := Covers.of_isPrefix (hh.elog_isPrefix hl) he.length_le
          exact .inl (hkeep T k hle hc (hpre.trans he))
        · exact .inr ⟨n.term,by omega,le_rfl,hl,he⟩
      · exact .inr hb

theorem accept {m c : Nat} {l : List E} (hr : n.role=.follower) (hlead : (h.lead n.term).isSome)
    (hm : m≤(h.llog n.term).length) (hc : h.CommitOk n.term c)
    (hl : Covers m n.log (h.llog n.term) ∧ l=n.log ∨
      ¬Covers m n.log (h.llog n.term) ∧ l=(h.llog n.term).take m) :
    HistInv B (h.ackTo n.term i m) ∧ NodeInv B (h.ackTo n.term i m) i
      { n with log := l, commit := max n.commit (min c m) } := by
  have hcov : Covers m l (h.llog n.term) := by
    rcases hl with ⟨hc,rfl⟩ | ⟨_,rfl⟩
    · exact hc
    · exact .take hm
  have hkeep : ∀ T k, T≤n.term → Covers k n.log (h.llog T) →
      Covers k (h.llog n.term) (h.llog T) → Covers k l (h.llog T) :=
    fun T k _ => Covers.splice hm hl
  refine hn.ackTo hh hlead hr ?_ hcov hkeep ?_
  · rcases hl with ⟨_,rfl⟩ | ⟨hne,rfl⟩
    · exact hn.log
    · refine (hh.llog_inv hlead).take ?_
      by_contra hlt
      have h1 := Covers.of_isPrefix hn.log.base (Nat.not_le.mp hlt).le
      have h2 := Covers.of_isPrefix (hh.llog_inv hlead).base (Nat.not_le.mp hlt).le
      exact hne (h1.trans h2.symm)
  · rcases Nat.le_total (min c m) n.commit with hle | hle
    · obtain ⟨T,hT,hcm,hcv⟩ := hn.commit
      rw [Nat.max_eq_left hle]
      exact ⟨T,hT,hcm,hkeep T _ hT hcv ((hh.covers_comm hT hlead).mono hcm)⟩
    · obtain ⟨T,hT,hcT⟩ := hc
      rw [Nat.max_eq_right hle]
      have hcm : min c m≤h.comm T := (Nat.min_le_left c m).trans hcT
      refine ⟨T,hT,hcm,(hcov.mono (Nat.min_le_right c m)).trans ?_⟩
      exact (hh.covers_comm hT hlead).mono hcm

theorem stale (hr : n.role=.follower) (hlead : (h.lead n.term).isSome) :
    HistInv B (h.ackTo n.term i n.commit) ∧ NodeInv B (h.ackTo n.term i n.commit) i n :=
  hn.ackTo hh hlead hr hn.log (hn.commit_covers hh hlead) (fun _ _ _ hc _ => hc) hn.commit

theorem beat {c : Nat} (hack : c≤h.ack n.term i) (hr : n.role=.follower)
    (hc : h.CommitOk n.term c) : NodeInv B h i { n with commit := max n.commit c } := by
  refine { hn with
    leader := fun hr' => absurd (hr.symm.trans hr') nofun
    commit := ?_ }
  rcases Nat.le_total c n.commit with hle | hle
  · rw [Nat.max_eq_left hle]
    exact hn.commit
  rw [Nat.max_eq_right hle]
  rcases Nat.eq_zero_or_pos c with rfl | h0
  · exact ⟨n.term,le_rfl,Nat.zero_le _,.zero _ _⟩
  obtain ⟨T,hT,hcT⟩ := hc
  refine ⟨T,hT,hcT,(hn.holds_self hack).trans ?_⟩
  exact (hh.covers_comm hT (hh.ackLed _ i (by omega))).mono hcT

end

end NodeInv

/-- Every step keeps the history and the node in order. -/
theorem Act.inv {B : Base E} {Q : (Nat → Prop) → Prop} {i : Nat} {h h' : Hist E} {n n' : Node E}
    (a : Act B Q i h n h' n') (hh : HistInv B h) (hn : NodeInv B h i n) :
    h.Grown i h' ∧ HistInv B h' ∧ NodeInv B h' i n' := by
  cases a with
  | adopt ht => exact ⟨.refl i h,hh,hn.adopt ht⟩
  | rest =>
    refine ⟨.refl i h,hh,?_⟩
    exact { hn with leader := nofun, matched := nofun, candidate := nofun, votes := nofun }
  | stand => exact hn.stand hh
  | tally hr hvs =>
    refine ⟨.refl i h,hh,?_⟩
    refine { hn with
      matched := fun hr' => absurd (hr.symm.trans hr') nofun
      votes := ?_ }
    intro _ j hj
    rcases hvs j hj with hj | hj | rfl
    · exact hn.votes hr j hj
    · exact hj
    · exact (hn.candidate hr).2.1
  | win hr _ hV hnone hcomp hms hmi => exact hn.win hh hr hV hnone hcomp hms hmi
  | extend hr hes hms hmi => exact hn.extend hh hr hes hms hmi
  | commit hr hlt hk ht _ hA hcomp => exact hn.commitTo hh hr hlt hk ht hA hcomp
  | track hr hms =>
    refine ⟨.refl i h,hh,?_⟩
    exact { hn with
      matched := fun _ j => (hms j).elim (fun hj => hj.trans (hn.matched hr j)) id
      candidate := fun hr' => absurd (hr.symm.trans hr') nofun
      votes := fun hr' => absurd (hr.symm.trans hr') nofun }
  | vote hc hv hup => exact ⟨h.grown_vote _ i _,hn.vote hh hc hv hup⟩
  | accept hr hl hm hc hlog => exact ⟨h.grown_ackTo _ i _,hn.accept hh hr hl hm hc hlog⟩
  | stale hr hl => exact ⟨h.grown_ackTo _ i _,hn.stale hh hr hl⟩
  | beat hr hack hc => exact ⟨.refl i h,hh,hn.beat hh hack hr hc⟩

/-- Two nodes agree on what both have committed. -/
theorem NodeInv.commit_agree {B : Base E} {h : Hist E} {i j k : Nat} {n m : Node E}
    (hh : HistInv B h) (hn : NodeInv B h i n) (hm : NodeInv B h j m) (hkn : k≤n.commit)
    (hkm : k ≤ m.commit) : Covers k n.log m.log := by
  obtain ⟨T,_,hT,hc⟩ := hn.commit
  obtain ⟨T',_,hT',hc'⟩ := hm.commit
  have hmid := hh.comm_covers (hkn.trans hT) (hkm.trans hT')
  exact ((hc.mono hkn).trans hmid).trans (hc'.mono hkm).symm

namespace Hist

/-- Every decision so far rests on a group that Q admits. -/
structure Quorate (B : Base E) (Q : (Nat → Prop) → Prop) (h : Hist E) : Prop where
  electors : ∀ T, (h.lead T).isSome → Q (h.electors T)
  ackers : ∀ T, B.term<T → h.comm T≠0 → Q (h.ackers T)

end Hist

theorem Act.quorate {B : Base E} {Q : (Nat → Prop) → Prop} {i : Nat} {h h' : Hist E}
    {n n' : Node E} (a : Act B Q i h n h' n') (hq : h.Quorate B Q) : h'.Quorate B Q := by
  cases a with
  | win _ hV =>
    refine ⟨?_,hq.ackers⟩
    intro T hT
    change (Function.update h.lead n.term _ T).isSome at hT
    change Q (Function.update h.electors n.term _ T)
    by_cases he : T=n.term
    · rwa [he,Function.update_self]
    · rw [Function.update_of_ne he] at hT ⊢
      exact hq.electors T hT
  | commit _ _ _ _ hA =>
    refine ⟨hq.electors,?_⟩
    intro T hT hc
    change Function.update h.comm n.term _ T≠0 at hc
    change Q (Function.update h.ackers n.term _ T)
    by_cases he : T=n.term
    · rwa [he,Function.update_self]
    · rw [Function.update_of_ne he] at hc ⊢
      exact hq.ackers T hT hc
  | adopt | rest | tally | track | beat => exact hq
  | stand | vote | extend | accept | stale => exact ⟨hq.electors,hq.ackers⟩

section

variable {B : Base E} {Q : (Nat → Prop) → Prop} (hQ : ∀ V A, Q V → Q A → ∃ v, V v ∧ A v)
  {i : Nat} {h : Hist E} {n : Node E} (hq : h.Quorate B Q) (hh : HistInv B h)
  (hn : NodeInv B h i n)
include hQ hq hh hn

/-- When any two groups meet, a quorum of votes makes the first leader of a term, and one
with all that is committed. -/
theorem NodeInv.wins_of_meet {V : Nat → Prop} (hr : n.role=.candidate) (hV : Q V)
    (hvotes : ∀ v, V v → n.votes v) :
    h.lead n.term=none ∧ ∀ T, T<n.term → Covers (h.comm T) n.log (h.llog T) := by
  refine ⟨hn.unled hh hr hvotes (fun _ hj => hQ _ _ hV (hq.electors _ (hj ▸ rfl))),?_⟩
  intro T hT
  exact hh.cand_complete (hn.candidate hr).2.2.1 (fun v hv => hn.votes hr v (hvotes v hv))
    (fun T1 hT1 _ hc => hQ _ _ hV (hq.ackers T1 hT1 hc)) hT

/-- What a quorum has acknowledged, every later leader was elected with. -/
theorem NodeInv.decides_of_meet {k : Nat} {A : Nat → Prop} (hr : n.role=.leader)
    (hlt : n.commit<k) (ht : termAt n.log k=n.term) (hA : Q A) (hm : ∀ v, A v → k≤n.matched v)
    {T : Nat} (hT : n.term<T) (hl : (h.lead T).isSome) : Covers k (h.elog T) (h.llog n.term) := by
  refine hh.complete_of_meet (by omega) ((hn.leader hr).2.1 ▸ ht)
    (fun v hv => (hm v hv).trans (hn.matched hr v)) ?_ T hT hl
  exact fun T' _ hl' _ => .inr (hQ _ _ hA (hq.electors T' hl'))

end

end RaftTesting.Consensus
