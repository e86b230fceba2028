import RaftTesting.Node.Tuned
import RaftTesting.Transition.Turn

namespace RaftTesting

/-- Recording a vote adds that one at most. -/
theorem ProgressTracker.recordVote_get {p : ProgressTracker} {id j : Nat} {v : Bool}
    (h : (p.recordVote id v).votes.get? j=some true) :
    p.votes.get? j=some true ∨ j=id ∧ v=true := by
  unfold recordVote at h
  split at h
  · exact .inl h
  · change (p.votes.insert id v).get? j=some true at h
    rw [SortedMap.get?_insert] at h
    split_ifs at h with hj
    · exact .inr ⟨hj,Option.some.inj h⟩
    · exact .inl h

namespace Raft

/-- Node id has answered the request that the node has out, and has not rejected it. -/
def Granted (G : Message → Prop) (r : Raft) (id : Nat) : Prop :=
  ∃ m, G m ∧ m.type=r.myVoteRespType ∧ r.Timely m ∧ m.fromId=id ∧ m.reject=false

/-- Whoever stands for election counts its own vote and those that it was granted. -/
def Supported (G : Message → Prop) (r : Raft) : Prop :=
  r.state=.statePreCandidate ∨ r.state=.stateCandidate →
  ∀ id, r.prs.votes.get? id=some true → id=r.id ∨ Granted G r id

/-- Neither the configuration of the node nor that of the cluster changes. -/
structure Steady (r r' : Raft) : Prop where
  id : r'.id=r.id
  preVote : r'.preVote=r.preVote
  voters : r'.prs.config.voters=r.prs.config.voters

theorem Steady.trans {r r' r'' : Raft} (h : Steady r r') (h' : Steady r' r'') : Steady r r'' :=
  ⟨h'.id.trans h.id,h'.preVote.trans h.preVote,h'.voters.trans h.voters⟩

/-- No message takes the node to a higher term. -/
def Level (M : Message → Prop) (r : Raft) : Prop := ∀ m, M m → r.term < m.term → keepsTerm m=true

/-- What entitles a node with PreVote to a new term. -/
def Entitled (G M : Message → Prop) (r : Raft) : Prop :=
  (∃ m, M m ∧ m.type=.msgTimeoutNow) ∨
  r.prs.config.voters.QuorumOf (fun id => id=r.id ∨
    ∃ m, G m ∧ m.type=.msgPreVoteResp ∧ r.Timely m ∧ m.fromId=id ∧ m.reject=false)

/-- A quorum has voted for the node in the given term. -/
def Elected (G : Message → Prop) (r : Raft) (term : Nat) : Prop :=
  r.prs.config.voters.QuorumOf (fun id => id=r.id ∨
    ∃ m, G m ∧ m.type=.msgVoteResp ∧ m.term=term ∧ m.fromId=id ∧ m.reject=false)

section

variable {G M : Message → Prop} {r r' : Raft} {m : Message}

theorem Called.entitled (hpre : r.preVote=true) (hr : r.Supported G) (h : Called M r) :
    Entitled G M r := by
  rcases h with hno | hnow | hown | ⟨hs,hwon⟩
  · cases hpre.symm.trans hno
  · exact .inl hnow
  · have hq := (JointConfig.voteResult_won _ _).mp hown
    rw [(r.prs.resetVotes.recordVote_frame r.id true).1] at hq
    refine .inr (hq.mono (fun id hid => ?_))
    rcases ProgressTracker.recordVote_get hid with hnone | ⟨hself,-⟩
    · cases hnone
    · exact .inl hself
  · have htype : r.myVoteRespType=.msgPreVoteResp := if_pos hs
    refine .inr (((JointConfig.voteResult_won _ _).mp hwon).mono (fun id hid => ?_))
    rcases hr (.inl hs) id hid with hself | ⟨m,hm,ht,hrest⟩
    · exact .inl hself
    · exact .inr ⟨m,hm,ht.trans htype,hrest⟩

/-- A vote is an answer to a request of the same term. -/
theorem elected_of_won (hG : ∀ m, G m → m.Stamped) (hr : r.Supported G)
    (hs : r.state=.stateCandidate) (hwon : r.prs.tallyVotes=.voteWon) : Elected G r r.term := by
  have htype : r.myVoteRespType=.msgVoteResp := if_neg (by rw [hs]; decide)
  refine ((JointConfig.voteResult_won _ _).mp hwon).mono (fun id hid => ?_)
  rcases hr (.inr hs) id hid with hself | ⟨m,hm,ht,htime,hfrom⟩
  · exact .inl hself
  · have ht := ht.trans htype
    refine .inr ⟨m,hm,ht,?_,hfrom⟩
    rcases htime with h0 | he | ⟨-,hkeep⟩
    · exact absurd h0 (hG m hm (by rw [ht]; rfl))
    · exact he
    · simp [keepsTerm,ht] at hkeep

end

section

variable [Raftpb] {G M : Message → Prop} {r r' : Raft} {m : Message}

theorem HostTouch.supported (hM : ∀ m, M m → G m) (hr : r.Supported G) (h : HostTouch M r r') :
    r'.Supported G := by
  cases h with
  | touch h =>
    cases h with
    | post h =>
      rw [h.same]
      exact hr
    | preStand =>
      intro _ id hid
      rcases ProgressTracker.recordVote_get hid with hnone | ⟨hself,-⟩
      · cases hnone
      · exact .inl hself
    | stand => exact fun _ id hid => by cases hid
    | poll id v hc =>
      intro hs j hj
      rcases ProgressTracker.recordVote_get hj with hj | ⟨rfl,rfl⟩
      · exact hr hs j hj
      · rcases hc with hself | ⟨m,hm,htype,htime,hfrom,hv⟩
        · exact .inl hself
        · exact .inr ⟨m,hM m hm,htype,htime,hfrom,by simpa using hv.symm⟩
    | restore _ _ _ _ hs => exact fun hs' => by rcases hs' with hs' | hs' <;> cases hs.symm.trans hs'
    | follow | rise => exact fun hs => by rcases hs with hs | hs <;> cases hs
    | pend | grow | release | commit | store | hear | vote | aim | abort => exact hr
  | clock | install | log | flush => exact hr

theorem HostTouches.supported (hM : ∀ m, M m → G m) (hr : r.Supported G) (h : HostTouches M r r') :
    r'.Supported G := by
  induction h with
  | refl => exact hr
  | tail _ h ih => exact h.supported hM ih

theorem Touch.steady (hM : ∀ m, M m → m.type≠.msgSnap) (h : Touch M r r') : Steady r r' := by
  cases h with
  | post h =>
    rw [h.same]
    exact ⟨rfl,rfl,rfl⟩
  | preStand =>
    refine ⟨rfl,rfl,?_⟩
    exact congrArg TrackerConfig.voters (r.prs.resetVotes.recordVote_frame r.id true).1
  | poll id v => exact ⟨rfl,rfl,congrArg TrackerConfig.voters (r.prs.recordVote_frame id v).1⟩
  | restore _ _ hm htype => exact absurd htype (hM _ hm)
  | follow | stand | rise | pend | grow | release | commit | store | hear | vote | aim | abort =>
    exact ⟨rfl,rfl,rfl⟩

/-- Unless it is taken to a higher term, a node only gets there by standing for election. -/
theorem Touch.term (hM : Level M r) (h : Touch M r r') : r'.term=r.term ∨ Called M r := by
  cases h with
  | post h => exact .inl (by rw [h.same])
  | follow hle _ =>
    rcases hle with ⟨hlt,m,hm,rfl,hkeep⟩ | ⟨rfl,-⟩
    · cases (hM m hm hlt).symm.trans hkeep
    · exact .inl rfl
  | stand _ hcall => exact .inr hcall
  | preStand | poll | rise | pend | grow | release | commit | store | hear | vote | restore | aim
  | abort => exact .inl rfl

theorem Touch.leads (h : Touch M r r') (hl : r'.state=.stateLeader) : r'.term=r.term ∧
    (r.state=.stateLeader ∨ r.state=.stateCandidate ∧ r.prs.tallyVotes=.voteWon) := by
  cases h with
  | post h =>
    rw [h.same] at hl ⊢
    exact ⟨rfl,.inl hl⟩
  | rise hs hwon => exact ⟨rfl,.inr ⟨hs,hwon⟩⟩
  | follow | preStand | stand => cases hl
  | poll | pend | grow | release | commit | store | hear | vote | restore | aim | abort =>
    exact ⟨rfl,.inl hl⟩

theorem TickTouches.steady (hM : ∀ m, M m → m.type≠.msgSnap) (h : TickTouches M r r') :
    Steady r r' := by
  induction h with
  | refl => exact ⟨rfl,rfl,rfl⟩
  | tail _ h ih =>
    cases h with
    | touch h => exact ih.trans (h.steady hM)
    | clock => exact ih.trans ⟨rfl,rfl,rfl⟩

theorem TickTouches.entitled (hGM : ∀ m, M m → G m) (hsnap : ∀ m, M m → m.type≠.msgSnap)
    (hM : Level M r) (hpre : r.preVote=true) (hr : r.Supported G) (h : TickTouches M r r') :
    r'.term=r.term ∨ Entitled G M r := by
  induction h with
  | refl => exact .inl rfl
  | @tail r1 r2 h1 h2 ih =>
    rcases ih with hterm | he
    · cases h2 with
      | clock => exact .inl hterm
      | touch h2 =>
        rcases h2.term (fun m hm hlt => hM m hm (hterm ▸ hlt)) with hterm' | hcall
        · exact .inl (hterm'.trans hterm)
        · have hst := TickTouches.steady hsnap h1
          have hb := (TickTouches.host h1).supported hGM hr
          have he := hcall.entitled (hst.preVote.trans hpre) hb
          unfold Entitled Timely at he
          rw [hst.voters,hst.id,hterm] at he
          exact .inr he
    · exact .inr he

theorem TickTouches.elected (hGM : ∀ m, M m → G m) (hG : ∀ m, G m → m.Stamped)
    (hsnap : ∀ m, M m → m.type≠.msgSnap) (hr : r.Supported G) (h : TickTouches M r r')
    (hl : r'.state=.stateLeader) :
    r.state=.stateLeader ∧ r'.term=r.term ∨ Elected G r r'.term := by
  induction h with
  | refl => exact .inl ⟨hl,rfl⟩
  | @tail r1 r2 h1 h2 ih =>
    cases h2 with
    | clock => exact ih hl
    | touch h2 =>
      obtain ⟨hterm,hlead | ⟨hs,hwon⟩⟩ := h2.leads hl
      · rw [hterm]
        exact ih hlead
      · have hst := TickTouches.steady hsnap h1
        have he := elected_of_won hG ((TickTouches.host h1).supported hGM hr) hs hwon
        unfold Elected at he ⊢
        rw [hst.voters,hst.id] at he
        rw [hterm]
        exact .inr he

/-- A new configuration elects nobody. -/
theorem applyConfChange_still {cc : ConfChangeV2} {cs : ConfState}
    (h : r.applyConfChange cc=.ok (r',cs)) :
    r'.term=r.term ∧ (r'.state=.stateLeader → r.state=.stateLeader) := by
  unfold applyConfChange at h
  split at h
  · cases h
  · obtain ⟨lt,hst⟩ := switchToConfig_installs h
    exact ⟨hst.term,hst.lead.mp⟩

/-- Whoever takes a snapshot follows. -/
theorem stepState_snap {err : Option StepErr} (htype : m.type=.msgSnap)
    (h : r.stepState m=.ok (r',err)) : r'=r ∨
      r'.state=.stateFollower ∧ (r'.term=r.term ∨ r'.term=m.term) := by
  have hcand : r.stepCandidate m=.ok (r',err) → r'.state=.stateFollower ∧ r'.term=m.term := by
    intro h
    unfold stepCandidate at h
    simp only [htype] at h
    obtain ⟨r1,h1,h⟩ := bind_eq_ok.mp h
    cases h
    have hm := handleSnapshot_handled (S := fun _ => True) trivial htype rfl h1
    exact ⟨hm.state,hm.still.term⟩
  unfold stepState at h
  split at h
  · rename_i hs
    unfold stepFollower at h
    simp only [htype] at h
    obtain ⟨r1,h1,h⟩ := bind_eq_ok.mp h
    cases h
    have hm := handleSnapshot_handled (S := fun _ => True) (r := r.hearLeader m.fromId)
      trivial htype hs h1
    exact .inr ⟨hm.state.trans hs,.inl hm.still.term⟩
  · exact .inr ⟨(hcand h).1,.inr (hcand h).2⟩
  · exact .inr ⟨(hcand h).1,.inr (hcand h).2⟩
  · unfold stepLeader at h
    simp only [htype] at h
    split at h
    · cases h
      exact .inl rfl
    · obtain ⟨r1,h1,h⟩ := bind_eq_ok.mp h
      cases h
      unfold stepLeaderPeer at h1
      simp only [htype] at h1
      cases h1
      exact .inl rfl

theorem step_snap {err : Option StepErr} (htype : m.type=.msgSnap) (h0 : m.term≠0)
    (h : r.step m=.ok (r',err)) :
    r'=r ∨ r'.state=.stateFollower ∧ (r'.term=r.term ∨ r.term < m.term) := by
  have hstate : ∀ {x : Raft}, x.stepType m=.ok (r',err) → x.stepState m=.ok (r',err) := by
    intro x hx
    unfold stepType at hx
    simp only [htype] at hx
    exact hx
  unfold step at h
  rw [if_neg h0] at h
  split at h
  · rename_i hlt
    split at h
    · cases h
      exact .inl rfl
    · split at h
      · rename_i hkeep
        simp [keepsTerm,htype] at hkeep
      · rcases stepState_snap htype (hstate h) with rfl | ⟨hs,-⟩
        · exact .inr ⟨rfl,.inr hlt⟩
        · exact .inr ⟨hs,.inr hlt⟩
  · split at h
    · obtain ⟨r1,h1,h⟩ := bind_eq_ok.mp h
      cases h
      unfold stepLower at h1
      simp only [htype,reduceCtorEq,or_self,and_false,if_false] at h1
      cases h1
      exact .inl rfl
    · have hterm : m.term=r.term := by omega
      refine (stepState_snap htype (hstate h)).imp_right (fun hs => ⟨hs.1,.inl ?_⟩)
      exact hs.2.elim (fun h => h) (fun h => h.trans hterm)

/-- What an act does to the term of a node with PreVote. -/
theorem Effect.entitled (hG : ∀ m, M m → G m ∧ m.Stamped) (hpre : r.preVote=true)
    (hs : r.Supported G) (h : Effect M r r') : r'.term=r.term ∨
      (∃ m, M m ∧ r.term < m.term ∧ keepsTerm m=false) ∨ Entitled G M r := by
  by_cases hhigh : ∃ m, M m ∧ r.term < m.term ∧ keepsTerm m=false
  · exact .inr (.inl hhigh)
  have hlevel : Level M r := by
    intro m hm hlt
    by_contra hkeep
    exact hhigh ⟨m,hm,hlt,by simpa using hkeep⟩
  cases h with
  | @own r1 l l' u _ h _ =>
    have ht := h (fun _ => False)
    refine (TickTouches.entitled (r := { r with raftLog := l, uncommittedSize := u }) ?_ ?_ ?_
      hpre hs ht).imp_right (fun h => .inr (h.imp_left (Exists.imp (fun _ hm => hm.1.elim)))) <;>
      exact fun _ hm => hm.elim
  | flush => exact .inl rfl
  | @step _ m _ hm h =>
    by_cases htype : m.type=.msgSnap
    · rcases step_snap htype ((hG m hm).2 (by rw [htype]; rfl)) h with rfl | ⟨-,he | hlt⟩
      · exact .inl rfl
      · exact .inl he
      · have hkeep := hlevel m hm hlt
        simp [keepsTerm,htype] at hkeep
    · have ht := step_touches (S := fun n => M n ∧ n.type≠.msgSnap) (fun _ => ⟨hm,htype⟩)
        (hG m hm).2 h
      refine (TickTouches.entitled (fun n hn => (hG n hn.1).1) (fun _ hn => hn.2)
        (fun n hn => hlevel n hn.1) hpre hs ht.tick).imp_right (fun he => .inr ?_)
      exact he.imp_left (Exists.imp (fun _ => And.imp_left And.left))
  | conf h => exact .inl (applyConfChange_still h).1

/-- Who leads after an act has led before, or has been elected. -/
theorem Effect.elected (hGM : ∀ m, M m → G m) (hG : ∀ m, G m → m.Stamped) (hs : r.Supported G)
    (h : Effect M r r') (hl : r'.state=.stateLeader) :
    r.state=.stateLeader ∧ r'.term=r.term ∨ Elected G r r'.term := by
  cases h with
  | @own r1 l l' u _ h _ =>
    have he := TickTouches.elected (r := { r with raftLog := l, uncommittedSize := u })
      (fun _ hm => False.elim hm) hG (fun _ hm => False.elim hm) hs (h (fun _ => False)) hl
    exact he
  | flush => exact .inl ⟨hl,rfl⟩
  | @step _ m _ hm h =>
    by_cases htype : m.type=.msgSnap
    · rcases step_snap htype (hG m (hGM m hm) (by rw [htype]; rfl)) h with rfl | ⟨hfol,-⟩
      · exact .inl ⟨hl,rfl⟩
      · cases hl.symm.trans hfol
    · have ht := step_touches (S := fun n => M n ∧ n.type≠.msgSnap) (fun _ => ⟨hm,htype⟩)
        (hG m (hGM m hm)) h
      exact TickTouches.elected (fun n hn => hGM n hn.1) hG (fun _ hn => hn.2) hs ht.tick hl
  | conf h =>
    obtain ⟨hterm,hlead⟩ := applyConfChange_still h
    exact .inl ⟨hlead hl,hterm⟩

end

end Raft

namespace Session

section

variable [Raftpb] {G : Message → Prop} {c cfg : Config} {x x' y : Session} {a : Act}
  {acts : List Act} {rn : RawNode} {draws : List Nat}

open Raft

theorem along_of_mem {P : Session → Act → Prop} (h : ∀ a ∈ acts, ∀ x, P x a) (x : Session) :
    x.Along P acts := by
  induction acts generalizing x with
  | nil => trivial
  | cons a acts ih =>
    refine ⟨h a List.mem_cons_self x,?_⟩
    cases x.act a with
    | error => trivial
    | ok x' => exact ih (fun b hb => h b (List.mem_cons_of_mem _ hb)) x'

omit [Raftpb] in
theorem step_mem_last {m : Message} (ha : a=.step m) : Act.step m ∈ acts++[a] := by
  rw [← ha]
  exact List.mem_append_right _ List.mem_cons_self

theorem run_supported (hc : cfg.validate=some c) (hrn : RawNode.newRawNode cfg draws=.ok rn)
    (hG : ∀ m, Act.step m ∈ acts → G m ∧ m.Stamped) (hx : run { rn := rn } acts=.ok x) :
    x.rn.raft.Supported G ∧ x.rn.raft.Tuned c := by
  obtain ⟨r,hr,hrn⟩ := bind_eq_ok.mp hrn
  cases hrn
  have hpos := Config.validate_ticks hc
  obtain ⟨-,-,hs,-⟩ := newRaft_spec hr
  have hstart : r.Supported G := fun hs' => by rcases hs' with hs' | hs' <;> cases hs.symm.trans hs'
  have halong (x : Session) : x.Along (fun _ a => ∀ m, a=.step m → G m ∧ m.Stamped) acts := by
    refine along_of_mem (fun a ha _ m hm => hG m ?_) x
    rw [← hm]
    exact ha
  refine run_induct (I := fun x => x.rn.raft.Supported G ∧ x.rn.raft.Tuned c)
    (fun x a x' hx hP hact => ?_) ⟨hstart,newRaft_tuned hc hr⟩ (halong _) hx
  have ht := (act_does hact).effect.touches (fun m hm => (hP m hm).2)
  exact ⟨ht.supported (fun m hm => (hP m hm).1) hx.1,ht.tuned (by omega) hx.2⟩

/-- PreVote: whatever has happened to a node, it only leaves its term for a message of a higher
one, because it is told to stand for election, or after a quorum of its voters, itself included,
has granted it a pre-vote. -/
theorem run_prevote (hc : cfg.validate=some c) (hpre : c.preVote=true)
    (hrn : RawNode.newRawNode cfg draws=.ok rn) (hst : ∀ m, Act.step m ∈ acts++[a] → m.Stamped)
    (hx : run { rn := rn } acts=.ok x) (hy : x.act a=.ok y)
    (hterm : y.rn.raft.term≠x.rn.raft.term) :
    (∃ m, a=.step m ∧ (x.rn.raft.term < m.term ∧ keepsTerm m=false ∨ m.type=.msgTimeoutNow)) ∨
    x.rn.raft.prs.config.voters.QuorumOf (fun id => id=x.rn.raft.id ∨ ∃ m,
      Act.step m ∈ acts++[a] ∧ m.type=.msgPreVoteResp ∧ x.rn.raft.Timely m ∧ m.fromId=id ∧
      m.reject=false) := by
  have hs := run_supported (G := fun m => Act.step m ∈ acts++[a]) hc hrn
    (fun m hm => ⟨List.mem_append_left _ hm,hst m (List.mem_append_left _ hm)⟩) hx
  have heff := (act_does hy).effect
  rcases heff.entitled (fun m hm => ⟨step_mem_last hm,hst m (step_mem_last hm)⟩)
    (hs.2.preVote.trans hpre) hs.1 with hsame | ⟨m,ha,hhigh⟩ | ⟨m,ha,ht⟩ | hq
  · exact absurd hsame hterm
  · exact .inl ⟨m,ha,.inl hhigh⟩
  · exact .inl ⟨m,ha,.inr ht⟩
  · exact .inr hq

end

section

local instance preVoteWire : Raftpb := Wire.small

/-- One of two voters, that asks before it stands for election. -/
def cautious : Config := { pairConfig with preVote := true }

/-- Node 2 grants the pre-vote. -/
def granting : Act := .step { type := .msgPreVoteResp, toId := 1, fromId := 2, term := 1 }

theorem run_prevote_granted : ∃ x y : Session, x.act granting=.ok y ∧
    x.rn.raft.state=.statePreCandidate ∧ y.rn.raft.term=x.rn.raft.term+1 ∧
    x.rn.raft.prs.config.voters.QuorumOf (fun id => id=x.rn.raft.id ∨ ∃ m,
      Act.step m ∈ [.step { type := .msgHup, toId := 1 },granting] ∧ m.type=.msgPreVoteResp ∧
      x.rn.raft.Timely m ∧ m.fromId=id ∧ m.reject=false) := by
  obtain ⟨c,rn,x,y,hc,hpre,hrn,hx,hs,hy,hterm⟩ : ∃ c rn x y,
      cautious.validate=some c ∧ c.preVote=true ∧ RawNode.newRawNode cautious []=.ok rn ∧
      run { rn := rn } [.step { type := .msgHup, toId := 1 }]=.ok x ∧
      x.rn.raft.state=.statePreCandidate ∧ x.act granting=.ok y ∧
      y.rn.raft.term=x.rn.raft.term+1 :=
    ⟨_,_,_,_,rfl,rfl,rfl,rfl,by decide +kernel,rfl,by decide +kernel⟩
  refine ⟨x,y,hy,hs,hterm,(run_prevote hc hpre hrn ?_ hx hy ?_).resolve_left ?_⟩
  · intro m hm ht
    rcases List.mem_cons.mp hm with hm | hm
    · cases hm
      cases ht
    · cases List.mem_singleton.mp hm
      cases ht
  · rw [hterm]
    exact Nat.succ_ne_self _
  · rintro ⟨m,hm,⟨-,hkeep⟩ | ht⟩
    · cases hm
      cases hkeep
    · cases hm
      cases ht

end

section

variable [Raftpb] {cfg : Config} {x y : Session} {a : Act} {acts : List Act} {rn : RawNode}
  {draws : List Nat}

open Raft

/-- As long as its messages have terms where they need one, a node only starts to lead in a term
in which a quorum of its voters, itself included, has voted for it. A MsgVoteResp of term 0 would
be counted in any term. -/
theorem run_elected (hrn : RawNode.newRawNode cfg draws=.ok rn)
    (hst : ∀ m, Act.step m ∈ acts++[a] → m.Stamped) (hx : run { rn := rn } acts=.ok x)
    (hy : x.act a=.ok y) (hl : y.rn.raft.state=.stateLeader)
    (hnew : x.rn.raft.state=.stateLeader → y.rn.raft.term≠x.rn.raft.term) :
    x.rn.raft.prs.config.voters.QuorumOf (fun id => id=x.rn.raft.id ∨ ∃ m,
      Act.step m ∈ acts++[a] ∧ m.type=.msgVoteResp ∧ m.term=y.rn.raft.term ∧ m.fromId=id ∧
      m.reject=false) := by
  obtain ⟨c,hc⟩ : ∃ c, cfg.validate=some c := by
    obtain ⟨r,hr,-⟩ := bind_eq_ok.mp hrn
    obtain ⟨c,-,-,hc,-⟩ := newRaft_eq hr
    exact ⟨c,hc⟩
  have hs := run_supported (G := fun m => Act.step m ∈ acts++[a]) hc hrn
    (fun m hm => ⟨List.mem_append_left _ hm,hst m (List.mem_append_left _ hm)⟩) hx
  have heff := (act_does hy).effect
  rcases heff.elected (fun m hm => step_mem_last hm) hst hs.1 hl with ⟨hlead,hterm⟩ | he
  · exact absurd hterm (hnew hlead)
  · exact he

end

section

local instance electionWire : Raftpb := Wire.small

/-- Node 2 votes for node 1. -/
def voting : Act := .step { type := .msgVoteResp, toId := 1, fromId := 2, term := 1 }

theorem run_elected_voted : ∃ x y : Session, x.act voting=.ok y ∧
    x.rn.raft.state=.stateCandidate ∧ y.rn.raft.state=.stateLeader ∧
    x.rn.raft.prs.config.voters.QuorumOf (fun id => id=x.rn.raft.id ∨ ∃ m,
      Act.step m ∈ [.step { type := .msgHup, toId := 1 },voting] ∧ m.type=.msgVoteResp ∧
      m.term=y.rn.raft.term ∧ m.fromId=id ∧ m.reject=false) := by
  obtain ⟨rn,x,y,hrn,hx,hs,hy,hl⟩ : ∃ rn x y, RawNode.newRawNode pairConfig []=.ok rn ∧
      run { rn := rn } [.step { type := .msgHup, toId := 1 }]=.ok x ∧
      x.rn.raft.state=.stateCandidate ∧ x.act voting=.ok y ∧ y.rn.raft.state=.stateLeader :=
    ⟨_,_,_,rfl,rfl,by decide +kernel,rfl,by decide +kernel⟩
  refine ⟨x,y,hy,hs,hl,run_elected hrn ?_ hx hy hl (fun hlead => by cases hs.symm.trans hlead)⟩
  intro m hm ht
  rcases List.mem_cons.mp hm with hm | hm
  · cases hm
    cases ht
  · cases List.mem_singleton.mp hm
    decide

end

end Session

end RaftTesting
