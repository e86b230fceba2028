import RaftTesting.Node.Tuned

namespace RaftTesting

/-- A snapshot only stops being pending. -/
theorem Ready.stabilize_pending (rd : Ready) {l : RaftLog} (h : l.hasPendingSnapshot=false) :
    (rd.stabilize l).hasPendingSnapshot=false := by
  have hsnap : (rd.stabilize l).unstable.snapshot=.none ∨
      (rd.stabilize l).unstable.snapshot=l.unstable.snapshot :=
    Session.stabilize_snapshot l rd.entries rd.snapshot
  unfold RaftLog.hasPendingSnapshot at h ⊢
  rcases hsnap with hs | hs
  · rw [hs]
  · rw [hs]
    exact h

namespace Raft

theorem promotable_iff (r : Raft) : r.promotable=true ↔
    (∃ pr, r.prs.progress.get? r.id=some pr ∧ pr.isLearner=false) ∧
      r.raftLog.hasPendingSnapshot=false := by
  unfold promotable
  cases r.prs.progress.get? r.id with
  | none => simp
  | some pr => simp

/-- The node is a voter that has applied all it knows to be committed. -/
structure Eligible (r : Raft) : Prop where
  promotable : r.promotable=true
  applied : r.raftLog.committed≤r.raftLog.applied

/-- Nothing that bears on the next election changes but the time. -/
structure Waits (r r' : Raft) : Prop where
  state : r'.state=r.state
  term : r'.term=r.term
  timeout : r'.randomizedElectionTimeout=r.randomizedElectionTimeout
  eligible : r.Eligible → r'.Eligible

theorem Waits.trans {r r' r'' : Raft} (h : Waits r r') (h' : Waits r' r'') : Waits r r'' :=
  ⟨h'.state.trans h.state,h'.term.trans h.term,h'.timeout.trans h.timeout,
    fun he => h'.eligible (h.eligible he)⟩

/-- The node has stood for election since term T, or has asked whether it may. -/
def Stood (T : Nat) (r : Raft) : Prop := T<r.term ∨ T=r.term ∧ r.state=.statePreCandidate

section

variable [Raftpb] {M : Message → Prop} {r r' : Raft} {t : CampaignType} {T : Nat}

theorem HostTouch.term_le (h : HostTouch M r r') : r.term≤r'.term := by
  cases h with
  | touch h =>
    cases h with
    | post h => rw [h.same]
    | follow hle _ =>
      rcases hle with ⟨hlt,-⟩ | ⟨rfl,-⟩
      · exact hlt.le
      · exact le_rfl
    | stand => exact Nat.le_succ _
    | preStand | poll | rise | pend | grow | release | commit | store | hear | vote | restore | aim
    | abort => exact le_rfl
  | clock | install | log | flush => exact le_rfl

theorem HostTouches.term_le (h : HostTouches M r r') : r.term≤r'.term := by
  induction h with
  | refl => exact le_rfl
  | tail _ h ih => exact ih.trans h.term_le

theorem campaignVote_stood (h : r.campaignVote t=.ok r') : r.term<r'.term := by
  obtain ⟨r1,hcand,h⟩ := bind_eq_ok.mp h
  unfold becomeCandidate at hcand
  split at hcand
  · cases hcand
  cases hcand
  have hstood := standing_stepped (T := True) (S := fun _ => False) rfl h
  exact Nat.lt_of_lt_of_le (Nat.lt_succ_self _) (Touches.host hstood.node).term_le

theorem campaign_stood (h : r.campaign t=.ok r') : r'.Stood r.term := by
  unfold campaign at h
  split at h
  · obtain ⟨r1,hpre,h⟩ := bind_eq_ok.mp h
    unfold becomePreCandidate at hpre
    split at hpre
    · cases hpre
    cases hpre
    dsimp only at h
    split at h
    · have hlt := campaignVote_stood h
      exact .inl hlt
    · obtain ⟨ms,rfl,-⟩ := requestVotes_spec rfl h
      exact .inr ⟨rfl,rfl⟩
  · exact .inl (campaignVote_stood h)

/-- A node that is asked to campaign does so, unless it is not eligible. -/
theorem hup_stood (hs : r.state≠.stateLeader) (h : r.hup t=.ok r') :
    r'.Stood r.term ∨ r'=r ∧ ¬r.Eligible := by
  unfold hup at h
  rw [if_neg hs] at h
  split at h
  · rename_i hp
    cases h
    exact .inr ⟨rfl,fun he => by simp [he.promotable] at hp⟩
  · obtain ⟨res,-,h⟩ := bind_eq_ok.mp h
    split at h
    · cases h
    · split at h
      · rename_i hc
        cases h
        exact .inr ⟨rfl,fun he => absurd hc.2 (Nat.not_lt.mpr he.applied)⟩
      · exact .inl (campaign_stood h)

/-- The tick of a node that does not lead. -/
theorem tick_stood (hs : r.state≠.stateLeader) (h : r.tick=.ok r') :
    r'={ r with electionElapsed := r'.electionElapsed } ∧
      (r.Eligible → r'.electionElapsed=r.electionElapsed+1 ∧
        r.electionElapsed+1<r.randomizedElectionTimeout) ∨
    r'.Stood r.term ∧ r.randomizedElectionTimeout≤r.electionElapsed+1 := by
  unfold tick at h
  rw [if_neg hs] at h
  unfold tickElection at h
  dsimp only at h
  split at h
  · rename_i hdue
    obtain ⟨hprom,hpast⟩ := Bool.and_eq_true_iff.mp hdue
    obtain ⟨⟨r1,err⟩,h1,h⟩ := bind_eq_ok.mp h
    cases h
    obtain ⟨r2,h2,h1⟩ := bind_eq_ok.mp h1
    cases h1
    rcases hup_stood (r := { r with electionElapsed := 0 }) hs h2 with hst | ⟨rfl,hno⟩
    · exact .inr ⟨hst,of_decide_eq_true hpast⟩
    · exact .inl ⟨rfl,fun he => absurd ⟨he.promotable,he.applied⟩ hno⟩
  · rename_i hdue
    cases h
    refine .inl ⟨rfl,fun he => ⟨rfl,?_⟩⟩
    by_contra hge
    exact hdue (Bool.and_eq_true_iff.mpr ⟨he.promotable,decide_eq_true (Nat.not_lt.mp hge)⟩)

theorem advance_waits {rd : Ready} (hs : r.state≠.stateLeader) (h : r.advance rd=.ok r') :
    Waits r r' ∧ r'.electionElapsed=r.electionElapsed := by
  obtain ⟨l,r1,hl,h1,rfl⟩ := advance_touches h
  rw [h1.resolve_right (fun h => hs h.1)]
  refine ⟨⟨rfl,rfl,rfl,fun he => ⟨?_,?_⟩⟩,rfl⟩
  · obtain ⟨hpr,hsnap⟩ := (promotable_iff _).mp he.promotable
    refine (promotable_iff _).mpr ⟨hpr,rd.stabilize_pending ?_⟩
    unfold RaftLog.hasPendingSnapshot
    rw [hl.1]
    exact hsnap
  · change (rd.stabilize l).committed≤(rd.stabilize l).applied
    rw [rd.stabilize_eq l]
    exact (congrArg RaftLog.committed hl.1).trans_le (he.applied.trans hl.2)

end

end Raft

/-- Nobody talks to the node, and its configuration stays. -/
def Act.silent : Act → Bool
  | .step _ | .applyConfChange _ => false
  | _ => true

namespace Session

section

variable [Raftpb] {c cfg : Config} {x x' y : Session} {a : Act} {acts : List Act} {T : Nat}

open Raft

theorem Does.waits (hs : x.rn.raft.state≠.stateLeader) (ha : a.silent=true) (hne : a≠.tick)
    (h : x.Does a x') : Waits x.rn.raft x'.rn.raft ∧
      x'.rn.raft.electionElapsed=x.rn.raft.electionElapsed := by
  cases h with
  | stay | ready | save | append | compact =>
    exact ⟨⟨rfl,rfl,rfl,fun he => ⟨he.promotable,he.applied⟩⟩,rfl⟩
  | step => cases ha
  | tick => exact absurd rfl hne
  | applyConfChange => cases ha
  | advance _ _ hr =>
    obtain ⟨r,hadv,h1⟩ := bind_eq_ok.mp hr
    cases h1
    exact advance_waits hs hadv

theorem act_stood (hx : x.rn.raft.Stood T) (ha : a.silent=true) (h : x.act a=.ok x') :
    x'.rn.raft.Stood T := by
  have hle := ((act_does h).effect.touches (by
    rintro m rfl
    cases ha)).term_le
  rcases hx with hlt | ⟨rfl,hs⟩
  · exact .inl (hlt.trans_le hle)
  have hs' : x.rn.raft.state≠.stateLeader := by
    rw [hs]
    decide
  by_cases htick : a=.tick
  · subst htick
    rcases tick_stood hs' (act_tick h) with ⟨he,-⟩ | ⟨hst,-⟩
    · rw [he]
      exact .inr ⟨rfl,hs⟩
    · exact hst
  · have hw := ((act_does h).waits hs' ha htick).1
    exact .inr ⟨hw.term.symm,hw.state.trans hs⟩

theorem run_stood (hx : x.rn.raft.Stood T) (hq : ∀ a ∈ acts, a.silent=true)
    (hy : x.run acts=.ok y) : y.rn.raft.Stood T := by
  induction acts generalizing x with
  | nil =>
    cases hy
    exact hx
  | cons a acts ih =>
    obtain ⟨x1,h1,hy⟩ := bind_eq_ok.mp hy
    exact ih (act_stood hx (hq a List.mem_cons_self) h1)
      (fun b hb => hq b (List.mem_cons_of_mem _ hb)) hy

/-- A node that nobody talks to counts the ticks, and stands for election when its time is up. -/
theorem run_waits (hs : x.rn.raft.state≠.stateLeader) (he : x.rn.raft.Eligible)
    (hq : ∀ a ∈ acts, a.silent=true) (hy : x.run acts=.ok y) :
    Waits x.rn.raft y.rn.raft ∧
      y.rn.raft.electionElapsed=x.rn.raft.electionElapsed+acts.count .tick ∧
      (1≤acts.count .tick → y.rn.raft.electionElapsed<x.rn.raft.randomizedElectionTimeout) ∨
    y.rn.raft.Stood x.rn.raft.term ∧ 1≤acts.count .tick ∧
      x.rn.raft.randomizedElectionTimeout≤x.rn.raft.electionElapsed+acts.count .tick := by
  induction acts generalizing x with
  | nil =>
    cases hy
    exact .inl ⟨⟨rfl,rfl,rfl,fun h => h⟩,rfl,fun h => by cases h⟩
  | cons a acts ih =>
    obtain ⟨x1,h1,hrun⟩ := bind_eq_ok.mp hy
    have ha := hq a List.mem_cons_self
    have hq' : ∀ b ∈ acts, b.silent=true := fun b hb => hq b (List.mem_cons_of_mem _ hb)
    by_cases htick : a=.tick
    · subst htick
      rw [List.count_cons_self]
      rcases tick_stood hs (act_tick h1) with ⟨heq,hnot⟩ | ⟨hst,hge⟩
      · obtain ⟨hone,hlt⟩ := hnot he
        have hw : Waits x.rn.raft x1.rn.raft := by
          rw [heq]
          exact ⟨rfl,rfl,rfl,fun he => ⟨he.promotable,he.applied⟩⟩
        rcases ih (by rw [hw.state]; exact hs) (hw.eligible he) hq' hrun with
          ⟨hw',hel,hlt'⟩ | ⟨hst,hone',hge⟩
        · refine .inl ⟨hw.trans hw',by omega,fun _ => ?_⟩
          rw [hw.timeout] at hlt'
          omega
        · rw [hw.term] at hst
          rw [hw.timeout] at hge
          exact .inr ⟨hst,by omega,by omega⟩
      · exact .inr ⟨run_stood hst hq' hrun,by omega,by omega⟩
    · rw [List.count_cons_of_ne htick]
      obtain ⟨hw,hel⟩ := (act_does h1).waits hs ha htick
      rcases ih (by rw [hw.state]; exact hs) (hw.eligible he) hq' hrun with
        ⟨hw',hel',hlt'⟩ | ⟨hst,hone',hge⟩
      · refine .inl ⟨hw.trans hw',by omega,fun h => ?_⟩
        rw [← hw.timeout]
        exact hlt' h
      · rw [hw.term] at hst
        rw [hw.timeout] at hge
        exact .inr ⟨hst,hone',by omega⟩

/-- A voter that nobody talks to stands for election exactly when its time is up: not before it
has waited for an election timeout, and before it has waited for two. -/
theorem run_campaigns {rn : RawNode} {draws : List Nat} {before : List Act}
    (hc : cfg.validate=some c) (hrn : RawNode.newRawNode cfg draws=.ok rn)
    (hfits : Along Fits { rn := rn } before) (hx : run { rn := rn } before=.ok x)
    (hs : x.rn.raft.state≠.stateLeader) (he : x.rn.raft.Eligible)
    (hq : ∀ a ∈ acts, a.silent=true) (hticks : 1≤acts.count .tick) (hy : x.run acts=.ok y) :
    let timeout := x.rn.raft.randomizedElectionTimeout
    let elapsed := x.rn.raft.electionElapsed+acts.count .tick
    (c.electionTick≤timeout ∧ timeout<2*c.electionTick) ∧
    (elapsed<timeout → y.rn.raft.state=x.rn.raft.state ∧ y.rn.raft.term=x.rn.raft.term) ∧
    (timeout≤elapsed → y.rn.raft.Stood x.rn.raft.term) := by
  intro timeout elapsed
  have htuned := (run_tuned hc hrn hfits hx).node
  refine ⟨⟨htuned.low,htuned.high⟩,?_⟩
  rcases run_waits hs he hq hy with ⟨hw,hel,hlt⟩ | ⟨hst,-,hge⟩
  · refine ⟨fun _ => ⟨hw.state,hw.term⟩,fun hge => ?_⟩
    have hlt := hlt hticks
    omega
  · exact ⟨fun hlt => absurd hge (Nat.not_le.mpr hlt),fun _ => hst⟩

end

section

local instance timeoutWire : Raftpb := Wire.small

/-- Ten ticks of a new node, that waits for just as many. -/
theorem run_campaigns_pair : ∃ x y : Session, x.run (List.replicate 10 .tick)=.ok y ∧
    x.rn.raft.state=.stateFollower ∧ y.rn.raft.Stood x.rn.raft.term := by
  obtain ⟨c,rn,y,hc,hrn,htime,hs,hp,hle,hy⟩ : ∃ c rn y, pairConfig.validate=some c ∧
      RawNode.newRawNode pairConfig []=.ok rn ∧ rn.raft.randomizedElectionTimeout=10 ∧
      rn.raft.state=.stateFollower ∧ rn.raft.promotable=true ∧
      rn.raft.raftLog.committed≤rn.raft.raftLog.applied ∧
      run { rn := rn } (List.replicate 10 .tick)=.ok y :=
    ⟨_,_,_,rfl,rfl,by decide +kernel,by decide +kernel,by decide +kernel,by decide +kernel,rfl⟩
  have hfits : Along Fits { rn := rn } [] := trivial
  obtain ⟨-,-,hstood⟩ := run_campaigns hc hrn hfits rfl (by rw [hs]; decide) ⟨hp,hle⟩ (by decide)
    (by decide) hy
  exact ⟨{ rn := rn },y,hy,hs,hstood (htime.trans_le (Nat.le_add_left _ _))⟩

end

end Session

end RaftTesting
