import RaftTesting.Consensus.Safety
import RaftTesting.Log.Conflict
import RaftTesting.Transition.Host

namespace RaftTesting

open Consensus

/-- A pre-candidate is still a follower: it has neither left its term nor voted. -/
def StateType.role : StateType → Consensus.Role
  | .stateLeader => .leader
  | .stateCandidate => .candidate
  | .stateFollower | .statePreCandidate => .follower

namespace Core

def matched (c : Core) (j : Nat) : Nat := ((c.prs.progress.get? j).map (·.matchIndex)).getD 0

def granted (c : Core) (j : Nat) : Prop := c.prs.votes.get? j=some true

/-- The node of the consensus machine that a core implements. -/
def node (c : Core) : Node Entry where
  term := c.term
  vote := if c.vote=noNode then none else some c.vote
  role := c.state.role
  log := c.raftLog.all
  commit := c.raftLog.committed
  votes := c.granted
  matched := c.matched

theorem matched_of_get {c : Core} {j : Nat} {pr : Progress}
    (h : c.prs.progress.get? j=some pr) : c.matched j=pr.matchIndex := by
  unfold matched
  rw [h]
  rfl

end Core

theorem StateType.role_leader {s : StateType} : s.role=.leader ↔ s=.stateLeader := by
  cases s <;> simp [role]

theorem StateType.role_candidate {s : StateType} : s.role=.candidate ↔ s=.stateCandidate := by
  cases s <;> simp [role]

/-- What a message tells about the history. -/
def Message.Ok (h : Hist Entry) (m : Message) : Prop :=
  match m.type with
  | .msgVote => m.fromId≠noNode ∧ ∃ l, h.cand m.term m.fromId=some l ∧ m.index=l.length ∧
      m.logTerm=lastTerm l
  | .msgVoteResp => m.reject=false → h.voted m.term m.fromId m.toId
  | .msgApp => (h.lead m.term).isSome ∧ Segment (h.llog m.term) m.index m.entries ∧
      m.logTerm=termAt (h.llog m.term) m.index ∧ h.CommitOk m.term m.commit
  | .msgAppResp => m.reject=false → m.index≤h.ack m.term m.fromId
  | .msgHeartbeat => m.commit≤h.ack m.term m.toId ∧ h.CommitOk m.term m.commit
  | .msgSnap => False
  | _ => True

theorem CommitOk.mono {i : Nat} {h h' : Hist Entry} (g : h.Grown i h') {T c : Nat} :
    h.CommitOk T c → h'.CommitOk T c := by
  rintro ⟨T',hT,hc⟩
  exact ⟨T',hT,hc.trans (g.comm T')⟩

/-- What a message tells stays true. -/
theorem Message.Ok.mono {i : Nat} {h h' : Hist Entry} (g : h.Grown i h') {m : Message}
    (hm : m.Ok h) : m.Ok h' := by
  unfold Message.Ok at hm ⊢
  split at hm
  · obtain ⟨hne,l,hc,hrest⟩ := hm
    exact ⟨hne,l,g.cand _ _ l hc,hrest⟩
  · exact fun hr => g.voted _ _ _ (hm hr)
  · obtain ⟨hl,hs,ht,hc⟩ := hm
    refine ⟨g.lead_isSome hl,hs.grow (g.llog _),?_,CommitOk.mono g hc⟩
    have hlen : m.index≤(h.llog m.term).length := (Nat.le_add_right _ _).trans hs.fits
    rw [ht]
    exact ((Covers.of_isPrefix (g.llog _) hlen).termAt_eq le_rfl).symm
  · exact fun hr => (hm hr).trans (g.ack _ _)
  · exact ⟨hm.1.trans (g.ack _ _),CommitOk.mono g hm.2⟩
  · exact hm
  · trivial

/-- A peer's Next stays within the log, and no snapshot is on its way to it. -/
structure Progress.Sound (last : Nat) (pr : Progress) : Prop where
  pos : 1≤pr.next
  next : pr.next≤last+1
  pendingSnapshot : pr.pendingSnapshot=0

theorem Progress.Sound.mono {n n' : Nat} {pr : Progress} (h : pr.Sound n) (hn : n≤n') :
    pr.Sound n' := ⟨h.pos,h.next.trans (Nat.succ_le_succ hn),h.pendingSnapshot⟩

def Core.Tracks (c : Core) : Prop :=
  c.state=.stateLeader → ∀ j pr, c.prs.progress.get? j=some pr → pr.Sound c.raftLog.all.length

/-- A core with the history: it implements a node of the consensus machine, its log is
whole, and what it sends is true. -/
structure CoreInv (B : Base Entry) (h : Hist Entry) (i : Nat) (c : Core) : Prop where
  id : c.id=i
  pos : i≠noNode
  node : NodeInv B h i c.node
  log : c.raftLog.Whole
  tracks : c.Tracks
  msgs : ∀ m ∈ c.msgs, m.Ok h ∧ m.Stamped

/-- The messages that node i may be given: true ones that are addressed to it. -/
def Given (h : Hist Entry) (i : Nat) (m : Message) : Prop :=
  m.Ok h ∧ m.Stamped ∧ (m.type.needsTerm=true → m.toId=i)

/-- A candidate with enough votes is the first leader of its term, and has all that is
committed. -/
def ElectOk (Q : (Nat → Prop) → Prop) (h : Hist Entry) (c : Core) : Prop :=
  c.state=.stateCandidate → c.prs.tallyVotes=.voteWon → Q c.granted ∧ h.lead c.term=none ∧
    ∀ T, T<c.term → Covers (h.comm T) c.raftLog.all (h.llog T)

/-- What the acknowledgements let a leader commit, every later leader was elected with. -/
def DecideOk (Q : (Nat → Prop) → Prop) (h : Hist Entry) (c : Core) : Prop :=
  c.state=.stateLeader → c.raftLog.committed<c.prs.committed →
    termAt c.raftLog.all c.prs.committed=c.term →
    Q (fun v => c.prs.committed≤c.matched v) ∧
    ∀ T, c.term<T → (h.lead T).isSome → Covers c.prs.committed (h.elog T) (h.llog c.term)

/-- A step of the core that the consensus machine can follow. -/
structure Sim (B : Base Entry) (Q : (Nat → Prop) → Prop) (i : Nat) (h : Hist Entry) (c : Core)
    (h' : Hist Entry) (c' : Core) : Prop where
  act : h'=h ∧ c'.node=c.node ∨ Act B Q i h c.node h' c'.node
  id : c'.id=c.id
  log : c'.raftLog.Whole
  storage : c'.raftLog.storage=c.raftLog.storage
  offset : c'.raftLog.unstable.offset≤c.raftLog.unstable.offset
  entries : c.raftLog.unstable.entries≠[] → c'.raftLog.unstable.entries≠[]
  tracks : c'.Tracks
  msgs : ∀ m ∈ c'.msgs, m ∈ c.msgs ∨ m.Ok h' ∧ m.Stamped

/-- The history grows, and the log may drop unstable entries for others but not stored ones. -/
structure Shift (i : Nat) (h : Hist Entry) (c : Core) (h' : Hist Entry) (c' : Core) : Prop where
  grown : h.Grown i h'
  storage : c'.raftLog.storage=c.raftLog.storage
  offset : c'.raftLog.unstable.offset≤c.raftLog.unstable.offset
  entries : c.raftLog.unstable.entries≠[] → c'.raftLog.unstable.entries≠[]

theorem Shift.refl (i : Nat) (h : Hist Entry) (c : Core) : Shift i h c h c :=
  ⟨.refl i h,rfl,le_rfl,id⟩

theorem Shift.trans {i : Nat} {h h' h'' : Hist Entry} {c c' c'' : Core} (s : Shift i h c h' c')
    (s' : Shift i h' c' h'' c'') : Shift i h c h'' c'' :=
  ⟨s.grown.trans s'.grown,s'.storage.trans s.storage,s'.offset.trans s.offset,
    fun he => s'.entries (s.entries he)⟩

namespace Sim

variable {B : Base Entry} {Q : (Nat → Prop) → Prop} {i : Nat} {h h' : Hist Entry} {c c' : Core}

theorem shift (s : Sim B Q i h c h' c') (g : h.Grown i h') : Shift i h c h' c' :=
  ⟨g,s.storage,s.offset,s.entries⟩

/-- A step that does not move entries. -/
theorem of_log (hc : CoreInv B h i c)
    (act : h'=h ∧ c'.node=c.node ∨ Act B Q i h c.node h' c'.node) (id : c'.id=c.id)
    (storage : c'.raftLog.storage=c.raftLog.storage)
    (unstable : c'.raftLog.unstable=c.raftLog.unstable) (tracks : c'.Tracks)
    (msgs : ∀ m ∈ c'.msgs, m ∈ c.msgs ∨ m.Ok h' ∧ m.Stamped) : Sim B Q i h c h' c' where
  act := act
  id := id
  log := hc.log.congr storage unstable
  storage := storage
  offset := unstable ▸ le_rfl
  entries := unstable ▸ fun he => he
  tracks := tracks
  msgs := msgs

theorem inv (s : Sim B Q i h c h' c') (hh : HistInv B h) (hc : CoreInv B h i c) :
    h.Grown i h' ∧ HistInv B h' ∧ CoreInv B h' i c' := by
  have hnode : h.Grown i h' ∧ HistInv B h' ∧ NodeInv B h' i c'.node := by
    rcases s.act with ⟨rfl,he⟩ | ha
    · exact ⟨.refl i h',hh,he ▸ hc.node⟩
    · exact ha.inv hh hc.node
  obtain ⟨g,hh',hn⟩ := hnode
  refine ⟨g,hh',⟨s.id.trans hc.id,hc.pos,hn,s.log,s.tracks,?_⟩⟩
  intro m hm
  rcases s.msgs m hm with hm | hm
  · exact ⟨(hc.msgs m hm).1.mono g,(hc.msgs m hm).2⟩
  · exact hm

end Sim

end RaftTesting
