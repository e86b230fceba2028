import RaftTesting.Protocol.Wire
import RaftTesting.Transition.Host

namespace RaftTesting

/-- What a node must never take back: its term, its commit index, and a vote cast in
its term. -/
structure HardLe (c c' : Core) : Prop where
  term : c.term≤c'.term
  committed : c.raftLog.committed≤c'.raftLog.committed
  vote : c'.term=c.term → c.vote≠noNode → c'.vote=c.vote

namespace HardLe

theorem refl (c : Core) : HardLe c c := ⟨le_rfl,le_rfl,fun _ _ => rfl⟩

theorem trans {c c' c'' : Core} (h : HardLe c c') (h' : HardLe c' c'') : HardLe c c'' where
  term := h.term.trans h'.term
  committed := h.committed.trans h'.committed
  vote := by
    intro ht hv
    have hmid : c'.term=c.term := le_antisymm (ht ▸ h'.term) h.term
    have hvote : c'.vote=c.vote := h.vote hmid hv
    rw [← hvote]
    exact h'.vote (ht.trans hmid.symm) (hvote ▸ hv)

/-- Steps that touch only the log beside the bookkeeping. -/
theorem of_log {c c' : Core} (ht : c'.term=c.term) (hv : c'.vote=c.vote)
    (hc : c.raftLog.committed≤c'.raftLog.committed) : HardLe c c' :=
  ⟨ht.ge,hc,fun _ _ => hv⟩

theorem of_frame {c c' : Core} (h : Core.Frame c c') : HardLe c c' :=
  of_log h.term h.vote (h.raftLog ▸ le_rfl)

end HardLe

namespace Core

variable [Raftpb] {S : Message → Prop} {c c' : Core}

theorem Move.hardLe (h : Move S c c') : HardLe c c' := by
  cases h with
  | send h => exact .of_frame h.frame
  | follow hle =>
    refine ⟨hle,le_rfl,fun ht _ => ?_⟩
    exact if_neg (not_not.mpr (Eq.symm ht))
  | preStand | poll | pend | ack => exact .of_log rfl rfl le_rfl
  | stand =>
    refine ⟨Nat.le_succ _,le_rfl,fun ht _ => ?_⟩
    exact absurd ht (Nat.succ_ne_self _)
  | elect => exact .of_log rfl (if_neg (not_not.mpr rfl)) le_rfl
  | append _ _ happ _ =>
    refine .of_log rfl rfl (le_of_eq ?_)
    exact (congrArg RaftLog.committed (RaftLog.append_spec happ)).symm
  | commit _ hc =>
    refine .of_log rfl rfl ?_
    rcases RaftLog.maybeCommit_spec hc with ⟨hb,_⟩ | ⟨_,_,_,rfl⟩
    · cases hb
    · exact RaftLog.committed_le_commitTo _ _
  | vote _ _ _ hv _ =>
    refine ⟨le_rfl,le_rfl,fun _ hne => ?_⟩
    exact (hv.resolve_right hne).symm
  | accept _ _ _ _ _ happ => exact .of_log rfl rfl (RaftLog.committed_le_maybeAppend happ)
  | stale | skip => exact .of_log rfl rfl le_rfl
  | beat | forward => exact .of_log rfl rfl (RaftLog.committed_le_commitTo _ _)
  | restore _ _ _ _ _ hlt _ _ => exact .of_log rfl rfl hlt.le

theorem HostMove.hardLe (h : HostMove S c c') : HardLe c c' := by
  cases h with
  | move h => exact h.hardLe
  | applied h =>
    refine .of_log rfl rfl (le_of_eq ?_)
    rcases RaftLog.appliedTo_spec h with ⟨-,rfl⟩ | ⟨-,-,-,rfl⟩ <;> rfl
  | leave _ _ happ _ =>
    refine .of_log rfl rfl (le_of_eq ?_)
    exact (congrArg RaftLog.committed (RaftLog.append_spec happ)).symm

theorem HostMoves.hardLe (h : HostMoves S c c') : HardLe c c' := by
  induction h with
  | refl => exact .refl c
  | tail _ h ih => exact ih.trans h.hardLe

theorem Moves.hardLe (h : Moves S c c') : HardLe c c' := h.host.hardLe

end Core

namespace RawNode

/-- The operations of a RawNode. Between them the application may change the
storage that the log reads from. -/
inductive Op where
  | step (m : Message)
  | tick
  | applyConfChange (cc : ConfChangeV2)
  | ready
  | advance (rd : Ready)
  | setStorage (ms : MemoryStorage)

section

variable [Raftpb]

def runOp (rn : RawNode) : Op → Except Panic RawNode
  | .step m => do
    let (rn,_) ← rn.stepRaft m
    .ok rn
  | .tick => rn.tick
  | .applyConfChange cc => do
    let (rn,_) ← rn.applyConfChange cc
    .ok rn
  | .ready => do
    let (rn,_) ← rn.ready
    .ok rn
  | .advance rd => rn.advance rd
  | .setStorage ms => .ok { rn with
      raft := rn.raft.setLog { rn.raft.raftLog with storage := ms } }

def runOps (rn : RawNode) (ops : List Op) : Except Panic RawNode := ops.foldlM runOp rn

theorem runOp_hardLe {rn rn' : RawNode} {op : Op} (hstamp : ∀ m, op=.step m → m.Stamped)
    (h : rn.runOp op=.ok rn') : HardLe rn.raft.core rn'.raft.core := by
  cases op with
  | step m =>
    obtain ⟨⟨rn1,err⟩,h1,h⟩ := bind_eq_ok.mp h
    obtain ⟨⟨r,err'⟩,h2,h1⟩ := bind_eq_ok.mp h1
    cases h1
    cases h
    exact (Raft.step_moves (S := fun _ => True) (fun _ => trivial) (hstamp m rfl) h2).hardLe
  | tick =>
    obtain ⟨r,h1,h⟩ := bind_eq_ok.mp h
    cases h
    exact (Raft.tick_moves (S := fun _ => True) h1).hardLe
  | applyConfChange cc =>
    obtain ⟨⟨rn1,cs⟩,h1,h⟩ := bind_eq_ok.mp h
    obtain ⟨⟨r,cs'⟩,h2,h1⟩ := bind_eq_ok.mp h1
    cases h1
    cases h
    obtain ⟨t,_,hm⟩ := Raft.applyConfChange_moves (S := fun _ => True) h2
    have hinstall : HardLe rn.raft.core (rn.raft.core.install t) := .of_log rfl rfl le_rfl
    exact hinstall.trans hm.hardLe
  | ready =>
    obtain ⟨⟨rn1,rd⟩,h1,h⟩ := bind_eq_ok.mp h
    obtain ⟨rd',_,h1⟩ := bind_eq_ok.mp h1
    cases h1
    cases h
    exact .of_log rfl rfl le_rfl
  | advance rd =>
    obtain ⟨r,h1,h⟩ := bind_eq_ok.mp h
    cases h
    obtain ⟨c,hm,hr⟩ := Raft.advance_moves (S := fun _ => True) h1
    change HardLe rn.raft.core r.core
    rw [hr]
    refine hm.hardLe.trans (.of_log rfl rfl (le_of_eq ?_))
    exact (congrArg RaftLog.committed (rd.stabilize_eq c.raftLog)).symm
  | setStorage ms =>
    cases h
    exact .of_log rfl rfl le_rfl

/-- The hard state never goes back, over any sequence of operations and from any state. -/
theorem runOps_hardState {rn rn' : RawNode} {ops : List Op}
    (hstamp : ∀ m, Op.step m∈ops → isLocalMsg m.type=true ∨ m.type=.msgProp ∨
      m.type=.msgReadIndex ∨ m.term≠0) (h : rn.runOps ops=.ok rn') :
    rn.raft.term≤rn'.raft.term ∧ rn.raft.raftLog.committed≤rn'.raft.raftLog.committed ∧
      (rn'.raft.term=rn.raft.term → rn.raft.vote≠noNode → rn'.raft.vote=rn.raft.vote) := by
  have hrun : HardLe rn.raft.core rn'.raft.core := by
    refine foldlM_rel (R := fun a b : RawNode => HardLe a.raft.core b.raft.core)
      (fun _ => .refl _) (fun _ _ _ => .trans) (fun op hop a b hab => ?_) h
    refine runOp_hardLe (fun m hm hneeds => ?_) hab
    rcases hstamp m (hm ▸ hop) with hl | hl | hl | hl
    · cases ht : m.type <;> simp [ht,isLocalMsg,MessageType.needsTerm] at hl hneeds
    · rw [hl] at hneeds
      cases hneeds
    · rw [hl] at hneeds
      cases hneeds
    · exact hl
  exact ⟨hrun.term,hrun.committed,hrun.vote⟩

end

section

local instance : Raftpb := Wire.small

/-- A follower in term 5 with an empty log. -/
def follower5 : RawNode :=
  let r := (Raft.blank {
    id := 1
    electionTick := 10
    heartbeatTick := 1
    storage := .newMemoryStorage
    maxInflightMsgs := 256 } []).becomeFollower 5 noNode
  ⟨r,r.softState,r.hardState⟩

/-- Two candidates of term 6 ask for the vote. -/
def twoRequests : List Op :=
  [.step { type := .msgVote, toId := 1, fromId := 2, term := 6 },
    .step { type := .msgVote, toId := 1, fromId := 3, term := 6 },.tick]

theorem runOps_hardState_twoRequests : ∃ rn, follower5.runOps twoRequests=.ok rn ∧
    follower5.raft.term≤rn.raft.term ∧
    follower5.raft.raftLog.committed≤rn.raft.raftLog.committed ∧
    (rn.raft.term=follower5.raft.term → follower5.raft.vote≠noNode →
      rn.raft.vote=follower5.raft.vote) := by
  have hrun : follower5.runOps twoRequests=.ok _ := rfl
  refine ⟨_,hrun,runOps_hardState ?_ hrun⟩
  intro m hm
  simp only [twoRequests,List.mem_cons,Op.step.injEq,List.not_mem_nil,or_false,reduceCtorEq] at hm
  rcases hm with rfl | rfl
  · exact .inr (.inr (.inr (by decide)))
  · exact .inr (.inr (.inr (by decide)))

end

end RawNode

end RaftTesting
