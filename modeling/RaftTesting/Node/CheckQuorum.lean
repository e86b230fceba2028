import RaftTesting.Node.Tuned
import RaftTesting.Node.Windows

namespace RaftTesting

/-- A vote in a table comes from where the table was made. -/
theorem SortedMap.get?_foldl_source {f : SortedMap Bool → Nat → SortedMap Bool} {Q : Nat → Prop}
    (hf : ∀ votes k id, (f votes k).get? id=some true → votes.get? id=some true ∨ Q id)
    {ks : List Nat} {votes : SortedMap Bool} {id : Nat}
    (h : (ks.foldl f votes).get? id=some true) : votes.get? id=some true ∨ Q id := by
  induction ks generalizing votes with
  | nil => exact .inl h
  | cons k ks ih => exact (ih h).elim (hf votes k id) .inr

/-- The peers that a leader takes for active carry a decision. -/
theorem ProgressTracker.quorumActive_spec {p : ProgressTracker} (h : p.quorumActive=true) :
    p.config.voters.QuorumOf (fun id => ∃ pr, p.progress.get? id=some pr ∧ pr.recentActive=true) := by
  refine ((JointConfig.voteResult_won _ _).mp (of_decide_eq_true h)).mono (fun id hid => ?_)
  refine (SortedMap.get?_foldl_source (Q := fun id => ∃ pr, p.progress.get? id=some pr ∧
    pr.recentActive=true) (fun votes k id hid => ?_) hid).resolve_left (fun h => ?_)
  · split at hid
    · rename_i pr hk
      split_ifs at hid
      · exact .inl hid
      · rw [SortedMap.get?_insert] at hid
        split_ifs at hid with he
        · exact .inr ⟨pr,he ▸ hk,Option.some.inj hid⟩
        · exact .inl hid
    · exact .inl hid
  · cases h

namespace Raft

/-- The node does not lead in term T, and will not again. -/
def Fallen (T : Nat) (r : Raft) : Prop :=
  T<r.term ∨ T=r.term ∧ (r.state=.stateFollower ∨ r.state=.statePreCandidate)

/-- Whoever stands for election has voted for itself. -/
structure Sworn (r : Raft) : Prop where
  id : r.id≠noNode
  vote : r.state=.stateCandidate ∨ r.state=.stateLeader → r.vote=r.id

/-- A leader that goes on: the time does not, and no new transfer is begun. -/
structure Stays (M : Message → Prop) (r r' : Raft) : Prop where
  id : r'.id=r.id
  state : r'.state=r.state
  term : r'.term=r.term
  electionElapsed : r'.electionElapsed=r.electionElapsed
  config : r'.prs.config=r.prs.config
  tracks : Tracks M r.id r.prs.progress r'.prs.progress
  leadTransferee : r.leadTransferee=noNode → r'.leadTransferee=noNode

/-- No transfer is asked for, and the node does not ask itself for its vote. -/
structure Unasked (M : Message → Prop) (id : Nat) : Prop where
  transfer : ∀ m, M m → m.type≠.msgTransferLeader
  vote : ∀ m, M m → m.type=.msgVote → m.fromId≠id

theorem unasked_none (id : Nat) : Unasked (fun _ => False) id :=
  ⟨fun _ hm => hm.elim,fun _ hm => hm.elim⟩

section

variable {M : Message → Prop} {own : Nat} {ps ps' ps'' : SortedMap Progress}

theorem Tracks.refl : Tracks M own ps ps :=
  ⟨fun _ => rfl,fun _ pr hget ha => .inr (.inl ⟨pr,hget,ha⟩)⟩

theorem Tracks.trans (h : Tracks M own ps ps') (h' : Tracks M own ps' ps'') :
    Tracks M own ps ps'' where
  learner := fun id => (h'.learner id).trans (h.learner id)
  active := by
    intro id pr'' hget ha
    rcases h'.active id pr'' hget ha with hself | ⟨pr',hget',ha'⟩ | hm
    · exact .inl hself
    · exact h.active id pr' hget' ha'
    · exact .inr (.inr hm)

theorem Stays.refl (r : Raft) : Stays M r r := ⟨rfl,rfl,rfl,rfl,rfl,.refl,fun h => h⟩

/-- The leader's log and its outbox do not matter. -/
theorem Stays.keep (r : Raft) (l : RaftLog) (u : Nat) (ms : List Message) (rss : List ReadState) :
    Stays M r { r with raftLog := l, uncommittedSize := u, msgs := ms, readStates := rss } :=
  ⟨rfl,rfl,rfl,rfl,rfl,.refl,fun h => h⟩

theorem Stays.trans {r r' r'' : Raft} (h : Stays M r r') (h' : Stays M r' r'') :
    Stays M r r'' where
  id := h'.id.trans h.id
  state := h'.state.trans h.state
  term := h'.term.trans h.term
  electionElapsed := h'.electionElapsed.trans h.electionElapsed
  config := h'.config.trans h.config
  tracks := h.tracks.trans (h.id ▸ h'.tracks)
  leadTransferee := fun ht => h'.leadTransferee (h.leadTransferee ht)

end

section

variable [Raftpb] {M : Message → Prop} {T : Nat} {r r' : Raft}

theorem HostTouch.fallen (hr : r.Fallen T) (h : HostTouch M r r') : r'.Fallen T := by
  cases h with
  | touch h =>
    cases h with
    | post h =>
      rw [h.same]
      exact hr
    | follow hle _ =>
      have hT : T≤r.term := hr.elim le_of_lt (fun h => h.1.le)
      rcases hle with ⟨hlt,-⟩ | ⟨rfl,-⟩
      · exact .inl (hT.trans_lt hlt)
      · exact hr.imp_right (fun h => ⟨h.1,.inl rfl⟩)
    | preStand =>
      rcases hr with hlt | ⟨he,-⟩
      · exact .inl hlt
      · exact .inr ⟨he,.inr rfl⟩
    | stand =>
      refine .inl (Nat.lt_succ_of_le ?_)
      exact hr.elim le_of_lt (fun h => h.1.le)
    | rise hs =>
      rcases hr with hlt | ⟨-,hs' | hs'⟩
      · exact .inl hlt
      · cases hs.symm.trans hs'
      · cases hs.symm.trans hs'
    | poll | pend | grow | release | commit | store | hear | vote | restore | aim | abort =>
      exact hr
  | clock | install | log | flush => exact hr

theorem HostTouches.fallen (hr : r.Fallen T) (h : HostTouches M r r') : r'.Fallen T := by
  induction h with
  | refl => exact hr
  | tail _ h ih => exact h.fallen ih

theorem HostTouch.sworn (hr : r.Sworn) (h : HostTouch M r r') : r'.Sworn := by
  have hidle : ∀ {x : Raft}, x.id=r.id → x.state=.stateFollower ∨ x.state=.statePreCandidate →
      x.Sworn := by
    intro x hid hx
    refine ⟨by rw [hid]; exact hr.id,fun hs => ?_⟩
    rcases hx with hx | hx <;> rcases hs with hs | hs <;> cases hx.symm.trans hs
  cases h with
  | touch h =>
    cases h with
    | post h =>
      rw [h.same]
      exact ⟨hr.id,hr.vote⟩
    | follow => exact hidle rfl (.inl rfl)
    | preStand => exact hidle rfl (.inr rfl)
    | stand => exact ⟨hr.id,fun _ => rfl⟩
    | rise hs =>
      refine ⟨hr.id,fun _ => ?_⟩
      change (if r.term≠r.term then noNode else r.vote)=r.id
      rw [if_neg (not_not.mpr rfl)]
      exact hr.vote (.inl hs)
    | vote _ _ hcan =>
      refine ⟨hr.id,fun hs => ?_⟩
      have hvote := hr.vote hs
      rcases hcan with hsame | ⟨hnone,-⟩
      · exact hsame.symm.trans hvote
      · exact absurd (hvote.symm.trans hnone) hr.id
    | poll | pend | grow | release | commit | store | hear | restore | aim | abort =>
      exact ⟨hr.id,hr.vote⟩
  | clock | install | log | flush => exact ⟨hr.id,hr.vote⟩

theorem HostTouches.sworn (hr : r.Sworn) (h : HostTouches M r r') : r'.Sworn := by
  induction h with
  | refl => exact hr
  | tail _ h ih => exact h.sworn ih

theorem Touch.stays (hu : Unasked M r.id) (hs : r.Sworn) (hl : r.state=.stateLeader)
    (h : Touch M r r') : Stays M r r' ∨ r'.Fallen r.term := by
  have hnot : ∀ {s : StateType}, s≠.stateLeader → r.state≠s :=
    fun hne he => hne (he.symm.trans hl)
  cases h with
  | post h =>
    cases h with
    | say => exact .inl ⟨rfl,rfl,rfl,rfl,rfl,.refl,fun h => h⟩
    | track ht => exact .inl ⟨rfl,rfl,rfl,rfl,rfl,ht,fun h => h⟩
    | reads => exact .inl ⟨rfl,rfl,rfl,rfl,rfl,.refl,fun h => h⟩
  | follow hle _ => exact .inr (hle.imp And.left (fun h => ⟨h.1,.inl rfl⟩))
  | preStand hne => exact absurd hl hne
  | stand hne => exact absurd hl hne
  | rise hc => exact absurd hc (hnot (by decide))
  | store _ _ hf _ => exact absurd hf (hnot (by decide))
  | hear _ _ _ hf => exact absurd hf (hnot (by decide))
  | restore _ _ _ _ hf => exact absurd hf (hnot (by decide))
  | vote hm ht hcan =>
    have hvote := hs.vote (.inr hl)
    rcases hcan with hsame | ⟨hnone,-⟩
    · exact absurd (hsame.symm.trans hvote) (hu.vote _ hm ht)
    · exact absurd (hvote.symm.trans hnone) hs.id
  | aim hm ht _ => exact absurd ht (hu.transfer _ hm)
  | poll id v =>
    obtain ⟨hprog,hcfg⟩ : (r.prs.recordVote id v).progress=r.prs.progress ∧
        (r.prs.recordVote id v).config=r.prs.config := by
      unfold ProgressTracker.recordVote
      split <;> exact ⟨rfl,rfl⟩
    refine .inl ⟨rfl,rfl,rfl,rfl,hcfg,?_,fun h => h⟩
    change Tracks M r.id r.prs.progress (r.prs.recordVote id v).progress
    rw [hprog]
    exact .refl
  | pend | grow | release | commit => exact .inl ⟨rfl,rfl,rfl,rfl,rfl,.refl,fun h => h⟩
  | abort => exact .inl ⟨rfl,rfl,rfl,rfl,rfl,.refl,fun _ => rfl⟩

theorem Touches.stays (hu : Unasked M r.id) (hs : r.Sworn) (hl : r.state=.stateLeader)
    (h : Touches M r r') : Stays M r r' ∨ r'.Fallen r.term := by
  induction h with
  | refl => exact .inl (.refl r)
  | @tail r1 r2 h1 h2 ih =>
    rcases ih with hst | hf
    · have hs1 : r1.Sworn := (Touches.host h1).sworn hs
      rcases h2.stays (hst.id ▸ hu) hs1 (hst.state.trans hl) with hst2 | hf
      · exact .inl (hst.trans hst2)
      · exact .inr (hst.term ▸ hf)
    · exact .inr ((HostTouch.touch h2).fallen hf)

/-- Only the node itself and peers in S count as active. -/
def Heard (S : Nat → Prop) (r : Raft) : Prop :=
  ∀ id pr, r.prs.progress.get? id=some pr → pr.recentActive=true → id=r.id ∨ S id

omit [Raftpb] in
theorem Stays.heard {S : Nat → Prop} (hM : ∀ m, M m → m.type.answers=true → S m.fromId)
    (hr : r.Heard S) (h : Stays M r r') : r'.Heard S := by
  intro id pr hget ha
  rw [h.id]
  rcases h.tracks.active id pr hget ha with hself | ⟨pr0,hget0,ha0⟩ | ⟨m,hm,ht,hfrom⟩
  · exact .inl hself
  · exact hr id pr0 hget0 ha0
  · exact .inr (hfrom ▸ hM m hm ht)

omit [Raftpb] in
theorem clearActive_heard (r : Raft) : r.clearActive.Heard (fun _ => False) := by
  intro id pr hget ha
  by_contra hid
  have hid : ¬id=r.id := fun h => hid (.inl h)
  change (r.prs.progress.mapVals _).get? id=some pr at hget
  rw [SortedMap.get?_mapVals] at hget
  obtain ⟨pr0,-,hpr⟩ := Option.map_eq_some_iff.mp hget
  rw [if_neg hid] at hpr
  rw [← hpr] at ha
  cases ha

omit [Raftpb] in
/-- A leader that goes on after the check has heard from a quorum, itself included. -/
theorem leaderCheckQuorum_spec (r : Raft) : r.leaderCheckQuorum.Fallen r.term ∨
    r.prs.config.voters.QuorumOf (fun id => id=r.id ∨
      ∃ pr, r.prs.progress.get? id=some pr ∧ pr.recentActive=true) ∧
    r.leaderCheckQuorum.Heard (fun _ => False) ∧ r.leaderCheckQuorum={ r with prs := { r.prs with
      progress := r.leaderCheckQuorum.prs.progress } } := by
  have hsplit : ∀ r1 : Raft, r1={ r with prs := { r.prs with progress := r1.prs.progress } } →
      (∀ id pr, r1.prs.progress.get? id=some pr → pr.recentActive=true → id=r.id ∨
        ∃ pr, r.prs.progress.get? id=some pr ∧ pr.recentActive=true) →
      let r2 := (if r1.prs.quorumActive then r1 else r1.becomeFollower r1.term noNode).clearActive
      r2.Fallen r.term ∨ r.prs.config.voters.QuorumOf (fun id => id=r.id ∨
        ∃ pr, r.prs.progress.get? id=some pr ∧ pr.recentActive=true) ∧
      r2.Heard (fun _ => False) ∧
        r2={ r with prs := { r.prs with progress := r2.prs.progress } } := by
    intro r1 hr1 hact r2
    by_cases hq : r1.prs.quorumActive=true
    · have hr2 : r2=r1.clearActive := by
        change (if r1.prs.quorumActive=true then r1 else _).clearActive=_
        rw [if_pos hq]
      have hcfg : r1.prs.config=r.prs.config := by rw [hr1]
      refine .inr ⟨?_,hr2 ▸ clearActive_heard r1,?_⟩
      · rw [← hcfg]
        exact (ProgressTracker.quorumActive_spec hq).mono (fun id ⟨pr,hget,ha⟩ => hact id pr hget ha)
      · rw [hr2,hr1]
        rfl
    · refine .inl (.inr ⟨?_,.inl ?_⟩)
      · change r.term=(if r1.prs.quorumActive=true then r1 else _).term
        rw [if_neg hq,hr1]
        rfl
      · change (if r1.prs.quorumActive=true then r1 else _).state=_
        rw [if_neg hq]
        rfl
  unfold leaderCheckQuorum
  dsimp only
  split
  · refine hsplit _ rfl (fun id pr hget ha => ?_)
    change (r.prs.progress.insert r.id _).get? id=some pr at hget
    rw [SortedMap.get?_insert] at hget
    split_ifs at hget with hid
    · exact .inl hid
    · exact .inr ⟨pr,hget,ha⟩
  · exact hsplit r rfl (fun id pr hget ha => .inr ⟨pr,hget,ha⟩)

theorem stepIgnored_checkQuorum (hl : r.state=.stateLeader) :
    r.stepIgnored { type := .msgCheckQuorum, fromId := r.id }=.ok r.leaderCheckQuorum := by
  unfold stepIgnored step stepType stepState
  rw [hl]
  rfl

/-- The time that a leader counts. -/
def ticked (r : Raft) : Raft :=
  { r with electionElapsed := r.electionElapsed+1, heartbeatElapsed := r.heartbeatElapsed+1 }

/-- The end of a leader's tick: the heartbeats, if they are due. -/
def beat (r : Raft) : Except Panic Raft :=
  if r.state≠.stateLeader then .ok r
  else if r.heartbeatTimeout≤r.heartbeatElapsed then
    Raft.stepIgnored { r with heartbeatElapsed := 0 } { type := .msgBeat, fromId := r.id }
  else .ok r

theorem tick_eq (hl : r.state=.stateLeader) :
    r.tick=(if r.electionTimeout≤r.electionElapsed+1 then r.ticked.leaderTimeout
      else .ok r.ticked).bind beat := by
  unfold tick
  rw [if_pos hl]
  rfl

theorem beat_touches (h : r.beat=.ok r') : HostTouches M r r' := by
  unfold beat at h
  split at h
  · cases h
    exact .refl
  · split at h
    · exact .head (.clock r.electionElapsed 0)
        (Touches.host (stepIgnored_stepped (T := True) (unsourced rfl rfl)
          (by intro h; cases h) h).node)
    · cases h
      exact .refl

theorem beat_stays (hs : r.Sworn) (hl : r.state=.stateLeader) (h : r.beat=.ok r') :
    Stays (fun _ => False) r r' ∨ r'.Fallen r.term := by
  unfold beat at h
  rw [if_neg (not_not.mpr hl)] at h
  split at h
  · have ht : Touches (fun _ => False) { r with heartbeatElapsed := 0 } r' :=
      (stepIgnored_stepped (T := True) (unsourced rfl rfl) (by intro h; cases h) h).node
    have hs0 : Sworn { r with heartbeatElapsed := 0 } := ⟨hs.id,hs.vote⟩
    rcases ht.stays (unasked_none _) hs0 hl with hst | hf
    · exact .inl { hst with }
    · exact .inr hf
  · cases h
    exact .inl (.refl r)

/-- A tick before the timeout only counts. -/
theorem tick_counts (hs : r.Sworn) (hl : r.state=.stateLeader)
    (he : r.electionElapsed+1<r.electionTimeout) (h : r.tick=.ok r') :
    Stays (fun _ => False) r.ticked r' ∨ r'.Fallen r.term := by
  rw [tick_eq hl,if_neg (Nat.not_le.mpr he)] at h
  exact beat_stays (r := r.ticked) ⟨hs.id,hs.vote⟩ hl h

/-- What the leader finds out at the timeout. -/
structure Checked (r r' : Raft) : Prop where
  id : r'.id=r.id
  state : r'.state=.stateLeader
  term : r'.term=r.term
  vote : r'.vote=r.vote
  electionElapsed : r'.electionElapsed=0
  config : r'.prs.config=r.prs.config
  leadTransferee : r'.leadTransferee=noNode
  quorum : r.checkQuorum=true → r'.Heard (fun _ => False) ∧
    r.prs.config.voters.QuorumOf (fun id => id=r.id ∨
      ∃ pr, r.prs.progress.get? id=some pr ∧ pr.recentActive=true)

theorem leaderTimeout_checks (hl : r.state=.stateLeader) (h : r.leaderTimeout=.ok r') :
    r'.Fallen r.term ∨ Checked r r' := by
  obtain ⟨r1,h1,h⟩ := bind_eq_ok.mp h
  have hend : r'={ r1 with leadTransferee := r'.leadTransferee } ∧
      (r1.state=.stateLeader → r'.leadTransferee=noNode) := by
    split at h
    · cases h
      exact ⟨rfl,fun _ => rfl⟩
    · rename_i hno
      cases h
      refine ⟨rfl,fun hl1 => ?_⟩
      by_contra hne
      exact hno ⟨hl1,hne⟩
  obtain ⟨heq,hlt⟩ := hend
  split at h1
  · rw [stepIgnored_checkQuorum (by exact hl)] at h1
    have h1 := (Except.ok.inj h1).symm
    rcases leaderCheckQuorum_spec { r with electionElapsed := 0 } with hf | ⟨hq,hd,hsame⟩
    · rw [← h1] at hf
      rw [heq]
      exact .inl hf
    · rw [← h1] at hd hsame
      have hl1 : r1.state=.stateLeader := by
        rw [hsame]
        exact hl
      have hd' : r'.Heard (fun _ => False) := by
        rw [heq]
        exact hd
      refine .inr ⟨?_,?_,?_,?_,?_,?_,hlt hl1,fun _ => ⟨hd',hq⟩⟩ <;> rw [heq,hsame]
      exact hl
  · rename_i hcq
    cases h1
    refine .inr ⟨?_,?_,?_,?_,?_,?_,hlt hl,fun hc => absurd hc hcq⟩ <;> rw [heq]
    exact hl

/-- At the timeout a leader gives up a transfer and, if it is told to, looks for a quorum. -/
theorem tick_checks (hs : r.Sworn) (hl : r.state=.stateLeader)
    (he : r.electionTimeout≤r.electionElapsed+1) (h : r.tick=.ok r') :
    r'.Fallen r.term ∨ Checked r r' := by
  rw [tick_eq hl,if_pos he] at h
  obtain ⟨r1,h1,h⟩ := bind_eq_ok.mp h
  rcases leaderTimeout_checks (r := r.ticked) hl h1 with hf | hc
  · exact .inl ((beat_touches (M := fun _ => False) h).fallen hf)
  have hid : r1.id=r.id := hc.id
  have hterm : r1.term=r.term := hc.term
  have hs1 : r1.Sworn := by
    refine ⟨hid ▸ hs.id,fun _ => ?_⟩
    rw [hc.vote,hid]
    exact hs.vote (.inr hl)
  rcases beat_stays hs1 hc.state h with hst | hf
  · refine .inr ⟨hst.id.trans hid,hst.state.trans hc.state,hst.term.trans hterm,?_,
      hst.electionElapsed.trans hc.electionElapsed,hst.config.trans hc.config,
      hst.leadTransferee hc.leadTransferee,fun hcq => ?_⟩
    · have hs' := (beat_touches (M := fun _ => False) h).sworn hs1
      rw [hs'.vote (.inr (hst.state.trans hc.state)),hst.id,hid]
      exact (hs.vote (.inr hl)).symm
    · obtain ⟨hd,hq⟩ := hc.quorum hcq
      exact ⟨hst.heard (fun _ hm => hm.elim) hd,hq⟩
  · exact .inl (hterm ▸ hf)

end

end Raft

namespace Session

/-- For the time being the configuration stays, nobody asks for a transfer or for a vote in the
node's own name, messages have terms where they need one, and only peers in S answer. -/
def Lonely (S : Nat → Prop) (x : Session) : Act → Prop
  | .step m => m.Stamped ∧ m.type≠.msgTransferLeader ∧
      (m.type=.msgVote → m.fromId≠x.rn.raft.id) ∧ (m.type.answers=true → S m.fromId)
  | .applyConfChange _ => False
  | _ => True

instance decidableLonely (S : Nat → Prop) [DecidablePred S] (x : Session) :
    (a : Act) → Decidable (x.Lonely S a)
  | .step m => inferInstanceAs (Decidable ((m.type.needsTerm=true → m.term≠0) ∧
      m.type≠.msgTransferLeader ∧ (m.type=.msgVote → m.fromId≠x.rn.raft.id) ∧
      (m.type.answers=true → S m.fromId)))
  | .applyConfChange _ => .isFalse (fun h => h)
  | .tick | .ready | .save | .append | .compact _ | .advance => .isTrue trivial

section

variable [Raftpb] {S : Nat → Prop} {c cfg : Config} {x x' y : Session} {a : Act} {acts : List Act}
  {T : Nat}

open Raft

omit [Raftpb] in
theorem Lonely.stamped (h : x.Lonely S a) : ∀ m, a=.step m → m.Stamped := by
  rintro m rfl
  exact h.1

/-- Whatever happens between two ticks, the leader goes on or steps down. -/
theorem Does.stays (hs : x.rn.raft.Sworn) (hl : x.rn.raft.state=.stateLeader)
    (hlone : x.Lonely S a) (ha : a≠.tick) (h : x.Does a x') :
    Stays (fun m => a=.step m) x.rn.raft x'.rn.raft ∨ x'.rn.raft.Fallen x.rn.raft.term := by
  cases h with
  | stay => exact .inl (.refl _)
  | @step m r err hr =>
    have ht := step_touches (S := fun n => Act.step m=.step n) (fun _ => rfl) hlone.1 hr
    refine ht.stays ⟨fun n hn => ?_,fun n hn => ?_⟩ hs hl
    · cases hn
      exact hlone.2.1
    · cases hn
      exact hlone.2.2.1
  | tick => exact absurd rfl ha
  | applyConfChange => exact hlone.elim
  | ready | save | append | compact => exact .inl (Stays.keep _ _ _ _ _)
  | advance _ _ hr =>
    obtain ⟨r,hadv,h1⟩ := bind_eq_ok.mp hr
    cases h1
    obtain ⟨l,r1,-,h1,rfl⟩ := advance_touches hadv
    rcases h1 with h1 | ⟨-,-,u,l',-,h1⟩
    · rw [h1]
      exact .inl (Stays.keep _ _ _ _ _)
    · have hs0 : Sworn { x.rn.raft with raftLog := l', uncommittedSize := u } := ⟨hs.id,hs.vote⟩
      have h1 := h1 (fun m => Act.advance=.step m)
      rcases h1.stays ⟨fun n hn => (by cases hn),fun n hn => (by cases hn)⟩ hs0 hl with hst | hf
      · exact .inl { hst with }
      · exact .inr hf

theorem run_fallen (hx : x.rn.raft.Fallen T) (hacts : x.Along (Lonely S) acts)
    (hy : x.run acts=.ok y) : y.rn.raft.Fallen T :=
  run_induct (I := fun x => x.rn.raft.Fallen T)
    (fun _ _ _ h hP hact => ((act_does hact).effect.touches hP.stamped).fallen h) hx hacts hy

/-- Node i leads in term T, with the voters V. -/
structure Reigns (c : Config) (T i : Nat) (V : JointConfig) (x : Session) : Prop where
  sworn : x.rn.raft.Sworn
  tuned : x.rn.raft.Tuned c
  id : x.rn.raft.id=i
  state : x.rn.raft.state=.stateLeader
  term : x.rn.raft.term=T
  voters : x.rn.raft.prs.config.voters=V

section

variable {i : Nat} {V : JointConfig} (hpos : 0<c.electionTick) (hx : x.Reigns c T i V)
include hpos hx

theorem Reigns.next {M : Message → Prop} (h : HostTouches M x.rn.raft x'.rn.raft)
    (hid : x'.rn.raft.id=x.rn.raft.id) (hstate : x'.rn.raft.state=.stateLeader)
    (hterm : x'.rn.raft.term=x.rn.raft.term)
    (hcfg : x'.rn.raft.prs.config=x.rn.raft.prs.config) : x'.Reigns c T i V :=
  ⟨h.sworn hx.sworn,h.tuned hpos hx.tuned,hid.trans hx.id,hstate,hterm.trans hx.term,
    (congrArg TrackerConfig.voters hcfg).trans hx.voters⟩

theorem Reigns.act (hlone : x.Lonely S a) (ha : a≠.tick) (h : x.act a=.ok x') :
    x'.rn.raft.Fallen T ∨ x'.Reigns c T i V ∧ Stays (fun m => a=.step m) x.rn.raft x'.rn.raft := by
  have htouch := (act_does h).effect.touches hlone.stamped
  rcases (act_does h).stays hx.sworn hx.state hlone ha with hst | hf
  · exact .inr ⟨hx.next hpos htouch hst.id (hst.state.trans hx.state) hst.term hst.config,hst⟩
  · exact .inl (hx.term ▸ hf)

theorem Reigns.tick (h : x.act .tick=.ok x') : x'.rn.raft.Fallen T ∨ x'.Reigns c T i V ∧
    (x.rn.raft.electionElapsed+1<c.electionTick ∧
      Stays (fun _ => False) x.rn.raft.ticked x'.rn.raft ∨
    c.electionTick≤x.rn.raft.electionElapsed+1 ∧ Checked x.rn.raft x'.rn.raft) := by
  have htouch := (act_does h).effect.touches (fun m hm => by cases hm)
  have hr := act_tick h
  rcases Nat.lt_or_ge (x.rn.raft.electionElapsed+1) c.electionTick with hlt | hge
  · rcases tick_counts hx.sworn hx.state (hx.tuned.electionTimeout ▸ hlt) hr with hst | hf
    · have hnext := hx.next hpos htouch hst.id (hst.state.trans hx.state) hst.term hst.config
      exact .inr ⟨hnext,.inl ⟨hlt,hst⟩⟩
    · exact .inl (hx.term ▸ hf)
  · rcases tick_checks hx.sworn hx.state (hx.tuned.electionTimeout ▸ hge) hr with hf | hc
    · exact .inl (hx.term ▸ hf)
    · exact .inr ⟨hx.next hpos htouch hc.id hc.state hc.term hc.config,.inr ⟨hge,hc⟩⟩

/-- What holds of a leader with so many ticks to come holds at the end, or it leads no more. -/
theorem Reigns.run_induct {I : Nat → Raft → Prop}
    (hact : ∀ {M n r r'}, (∀ m, M m → m.type.answers=true → S m.fromId) → Stays M r r' →
      I n r → I n r')
    (htick : ∀ {n r}, r.electionElapsed+1<c.electionTick → I (n+1) r → I n r.ticked)
    (hcheck : ∀ {n} {x : Session} {r'}, x.Reigns c T i V →
      c.electionTick≤x.rn.raft.electionElapsed+1 → Checked x.rn.raft r' → I (n+1) x.rn.raft →
      I n r')
    (hlone : x.Along (Lonely S) acts) (hI : I (acts.count .tick) x.rn.raft)
    (hy : x.run acts=.ok y) : y.rn.raft.Fallen T ∨ I 0 y.rn.raft := by
  induction acts generalizing x with
  | nil =>
    cases hy
    exact .inr hI
  | cons a acts ih =>
    obtain ⟨x1,h1,hrun⟩ := bind_eq_ok.mp hy
    obtain ⟨hl,hrest⟩ := hlone
    rw [h1] at hrest
    by_cases ha : a=.tick
    · subst ha
      rw [List.count_cons_self] at hI
      rcases hx.tick hpos h1 with hf | ⟨hx1,⟨hlt,hst⟩ | ⟨hge,hc⟩⟩
      · exact .inl (run_fallen hf hrest hrun)
      · exact ih hx1 hrest (hact (fun _ hm => hm.elim) hst (htick hlt hI)) hrun
      · exact ih hx1 hrest (hcheck hx hge hc hI) hrun
    · rw [List.count_cons_of_ne ha] at hI
      rcases hx.act hpos hl ha h1 with hf | ⟨hx1,hst⟩
      · exact .inl (run_fallen hf hrest hrun)
      · refine ih hx1 hrest (hact (fun m hm => ?_) hst hI) hrun
        subst hm
        exact hl.2.2.2

/-- A leader that counts no quorum as active steps down at the next timeout. After that timeout
nobody counts as active any more, so that otherwise the second one decides. -/
theorem Reigns.falls (hcq : c.checkQuorum=true) (hS : ¬V.QuorumOf (fun id => id=i ∨ S id))
    (hlone : x.Along (Lonely S) acts)
    (hticks : c.electionTick+max 1 (c.electionTick-x.rn.raft.electionElapsed) ≤ acts.count .tick)
    (hy : x.run acts=.ok y) : y.rn.raft.Fallen T := by
  refine (hx.run_induct (I := fun n r =>
    c.electionTick+max 1 (c.electionTick-r.electionElapsed) ≤ n ∨
      r.Heard S ∧ 1≤n ∧ c.electionTick ≤ n+r.electionElapsed) hpos ?_ ?_ ?_ hlone
      (.inl hticks) hy).resolve_right (by omega)
  · intro M n r r' hM hst hI
    rw [hst.electionElapsed]
    exact hI.imp_right (fun h => ⟨hst.heard hM h.1,h.2⟩)
  · intro n r hlt hI
    change _+max 1 (_-(r.electionElapsed+1)) ≤ n ∨ r.Heard S ∧ 1≤n ∧ _ ≤ n+(r.electionElapsed+1)
    exact hI.imp (by omega) (fun h => ⟨h.1,by omega⟩)
  · intro n x r' hx hge hc hI
    obtain ⟨hd,hq⟩ := hc.quorum (hx.tuned.checkQuorum.trans hcq)
    rcases hI with hlate | ⟨hheard,-⟩
    · refine .inr ⟨fun id pr hget ha => ?_,by omega⟩
      exact (hd id pr hget ha).imp_right False.elim
    · -- the check finds no quorum
      rw [hx.voters] at hq
      refine absurd (hq.mono (fun id hid => ?_)) hS
      rw [← hx.id]
      exact hid.elim .inl (fun ⟨pr,hget,ha⟩ => hheard id pr hget ha)

/-- A transfer does not outlast the timeout. -/
theorem Reigns.gives_up (hlone : x.Along (Lonely S) acts) (hone : 1≤acts.count .tick)
    (hticks : c.electionTick ≤ acts.count .tick+x.rn.raft.electionElapsed)
    (hy : x.run acts=.ok y) : y.rn.raft.Fallen T ∨ y.rn.raft.leadTransferee=noNode := by
  refine (hx.run_induct (I := fun n r => r.leadTransferee=noNode ∨
    1≤n ∧ c.electionTick ≤ n+r.electionElapsed) hpos ?_ ?_ ?_ hlone
      (.inr ⟨hone,hticks⟩) hy).imp_right (fun h => h.resolve_right (by omega))
  · intro M n r r' _ hst hI
    rw [hst.electionElapsed]
    exact hI.imp_left hst.leadTransferee
  · intro n r hlt hI
    change r.leadTransferee=noNode ∨ 1≤n ∧ _ ≤ n+(r.electionElapsed+1)
    exact hI.imp_right (by omega)
  · intro n x r' _ _ hc _
    exact .inl hc.leadTransferee

end

theorem run_reigns {draws : List Nat} {rn : RawNode} (hc : cfg.validate=some c)
    (hrn : RawNode.newRawNode cfg draws=.ok rn) (hfits : Along Fits { rn := rn } acts)
    (hx : run { rn := rn } acts=.ok x) (hl : x.rn.raft.state=.stateLeader) :
    x.Reigns c x.rn.raft.term x.rn.raft.id x.rn.raft.prs.config.voters := by
  have htuned := run_tuned hc hrn hfits hx
  obtain ⟨r,hr,hrn⟩ := bind_eq_ok.mp hrn
  cases hrn
  obtain ⟨hid,hid',hstate,-⟩ := newRaft_spec hr
  have hstart : r.Sworn := by
    refine ⟨hid' ▸ hid,fun hs => ?_⟩
    rcases hs with hs | hs <;> cases hstate.symm.trans hs
  have hsworn : x.rn.raft.Sworn := run_induct (I := fun x => x.rn.raft.Sworn)
    (fun x a x' h hP hact => ((act_does hact).effect.touches (by
      rintro m rfl
      exact hP.stamped)).sworn h) hstart hfits hx
  exact ⟨hsworn,htuned.node,rfl,hl,rfl,rfl⟩

/-- CheckQuorum: a leader that is not answered by a quorum for two election timeouts leads no
more in its term. Until then its messages have terms where they need one, and nobody votes in
its name: Step takes an answer of term 0 as local, and sets the election timer back for a
MsgVote from the node that has the vote, which is the leader itself. -/
theorem run_steps_down {draws : List Nat} {rn : RawNode} {before : List Act}
    (hc : cfg.validate=some c) (hcq : c.checkQuorum=true)
    (hrn : RawNode.newRawNode cfg draws=.ok rn) (hfits : Along Fits { rn := rn } before)
    (hx : run { rn := rn } before=.ok x) (hl : x.rn.raft.state=.stateLeader)
    (hS : ¬x.rn.raft.prs.config.voters.QuorumOf (fun id => id=x.rn.raft.id ∨ S id))
    (hlone : x.Along (Lonely S) acts) (hticks : 2*c.electionTick ≤ acts.count .tick)
    (hy : x.run acts=.ok y) :
    y.rn.raft.state≠.stateLeader ∨ x.rn.raft.term<y.rn.raft.term := by
  have hpos := Config.validate_ticks hc
  have hreigns := run_reigns hc hrn hfits hx hl
  rcases hreigns.falls (by omega) hcq hS hlone (by omega) hy with hlt | ⟨-,hs | hs⟩
  · exact .inr hlt
  · exact .inl (by rw [hs]; decide)
  · exact .inl (by rw [hs]; decide)

end

section

local instance quorumWire : Raftpb := Wire.small

/-- One of two voters, that looks for a quorum. -/
def watchful : Config := { pairConfig with checkQuorum := true }

/-- The leader takes a proposal, and the other voter does not answer for twenty ticks. -/
def unanswered : List Act :=
  .step { type := .msgProp, toId := 1, fromId := 1, entries := [default] }::List.replicate 20 .tick

theorem run_steps_down_unanswered : ∃ x y : Session, x.run unanswered=.ok y ∧
    x.rn.raft.state=.stateLeader ∧ y.rn.raft.term=2 ∧
    (y.rn.raft.state≠.stateLeader ∨ x.rn.raft.term<y.rn.raft.term) := by
  obtain ⟨c,rn,x,y,hc,hcq,hrn,hfits,hx,hl,hV,hid,hlone,hticks,hy,hterm⟩ : ∃ c rn x y,
      watchful.validate=some c ∧ c.checkQuorum=true ∧ RawNode.newRawNode watchful []=.ok rn ∧
      Along Fits { rn := rn } elected ∧ run { rn := rn } elected=.ok x ∧
      x.rn.raft.state=.stateLeader ∧ x.rn.raft.prs.config.voters=⟨some (IdSet.ofList [1,2]),none⟩ ∧
      x.rn.raft.id=1 ∧ x.Along (Lonely (fun _ => False)) unanswered ∧
      2*c.electionTick ≤ unanswered.count .tick ∧ x.run unanswered=.ok y ∧ y.rn.raft.term=2 :=
    ⟨_,_,_,_,rfl,rfl,rfl,by decide +kernel,rfl,by decide +kernel,by decide +kernel,
      by decide +kernel,by decide +kernel,by decide +kernel,rfl,by decide +kernel⟩
  refine ⟨x,y,hy,hl,hterm,run_steps_down hc hcq hrn hfits hx hl (fun hq => ?_) hlone hticks hy⟩
  rw [hV,hid] at hq
  -- with the vote of node 1 alone an election would not be won
  have hwon := (JointConfig.voteResult_won _ ((∅ : SortedMap Bool).insert 1 true)).mpr
    (hq.mono (fun id hid => by
      obtain rfl : id=1 := hid.elim (fun h => h) False.elim
      rfl))
  exact absurd hwon (by decide +kernel)

end

section

variable [Raftpb] {c cfg : Config} {x y : Session} {acts : List Act}

/-- A leadership transfer that does not succeed is given up within one election timeout, with
the same provisos on the messages. -/
theorem run_gives_up {draws : List Nat} {rn : RawNode} {before : List Act}
    (hc : cfg.validate=some c) (hrn : RawNode.newRawNode cfg draws=.ok rn)
    (hfits : Along Fits { rn := rn } before) (hx : run { rn := rn } before=.ok x)
    (hl : x.rn.raft.state=.stateLeader) (hlone : x.Along (Lonely (fun _ => True)) acts)
    (hticks : c.electionTick ≤ acts.count .tick) (hy : x.run acts=.ok y) :
    y.rn.raft.leadTransferee=noNode ∨ y.rn.raft.state≠.stateLeader ∨
      x.rn.raft.term<y.rn.raft.term := by
  have hpos := Config.validate_ticks hc
  have hreigns := run_reigns hc hrn hfits hx hl
  rcases hreigns.gives_up (by omega) hlone (by omega) (by omega) hy with (hlt | ⟨-,hs | hs⟩) | hnone
  · exact .inr (.inr hlt)
  · exact .inr (.inl (by rw [hs]; decide))
  · exact .inr (.inl (by rw [hs]; decide))
  · exact .inl hnone

end

section

local instance giveUpWire : Raftpb := Wire.small

/-- The leader is asked to hand over to node 2, which it has not heard from. -/
def asked : List Act := elected++[.step { type := .msgTransferLeader, toId := 1, fromId := 2 }]

theorem run_gives_up_asked : ∃ x y : Session, x.run (List.replicate 10 .tick)=.ok y ∧
    x.rn.raft.leadTransferee=2 ∧ (y.rn.raft.leadTransferee=noNode ∨
      y.rn.raft.state≠.stateLeader ∨ x.rn.raft.term<y.rn.raft.term) := by
  obtain ⟨c,rn,x,y,hc,hrn,hfits,hx,hl,hlt,hlone,hticks,hy⟩ : ∃ c rn x y,
      pairConfig.validate=some c ∧ RawNode.newRawNode pairConfig []=.ok rn ∧
      Along Fits { rn := rn } asked ∧ run { rn := rn } asked=.ok x ∧
      x.rn.raft.state=.stateLeader ∧ x.rn.raft.leadTransferee=2 ∧
      x.Along (Lonely (fun _ => True)) (List.replicate 10 .tick) ∧
      c.electionTick ≤ (List.replicate 10 Act.tick).count .tick ∧
      x.run (List.replicate 10 .tick)=.ok y :=
    ⟨_,_,_,_,rfl,rfl,by decide +kernel,rfl,by decide +kernel,by decide +kernel,by decide +kernel,
      by decide +kernel,rfl⟩
  exact ⟨x,y,hy,hlt,run_gives_up hc hrn hfits hx hl hlone hticks hy⟩

end

end Session

end RaftTesting
