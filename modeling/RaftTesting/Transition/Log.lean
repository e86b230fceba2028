import RaftTesting.Log.Cursors
import RaftTesting.Transition.Host

namespace RaftTesting

theorem Raft.stampEntries_numbered (term li : Nat) (es : List Entry) :
    Numbered li (stampEntries term li es) := by
  intro k e hk
  unfold stampEntries at hk
  rw [List.getElem?_mapIdx,Option.map_eq_some_iff] at hk
  obtain ⟨e',_,rfl⟩ := hk
  dsimp only
  omega

theorem Raft.stampEntries_term {term li : Nat} {es : List Entry} {e : Entry}
    (he : e ∈ stampEntries term li es) : e.term=term := by
  obtain ⟨k,hk⟩ := List.mem_iff_getElem?.mp he
  unfold stampEntries at hk
  rw [List.getElem?_mapIdx,Option.map_eq_some_iff] at hk
  obtain ⟨e',_,rfl⟩ := hk
  rfl

/-- Messages as the nodes send them: stamped with a term, and with the entries of a MsgApp
behind each other from its index on. -/
structure Message.Fine (m : Message) : Prop where
  stamped : m.Stamped
  entries : m.type=.msgApp → Numbered m.index m.entries

namespace LogSession

variable [Raftpb]

abbrev Changes (S : LogSession → Handout → Prop) : LogSession → LogSession → Prop :=
  Relation.ReflTransGen (fun x y => ∃ C, Change S x C y)

variable {P : LogSession → Handout → Prop} {x y : LogSession}

theorem Base.changes (hx : x.Base) (h : Changes P x y) : y.Base := by
  induction h with
  | refl => exact hx
  | tail _ h ih =>
    obtain ⟨C,h⟩ := h
    exact ih.change h

theorem Joined.changes (hx : x.Joined) (h : Changes Owns x y) : y.Joined := by
  induction h with
  | refl => exact hx
  | tail _ h ih =>
    obtain ⟨C,h⟩ := h
    exact ih.owned h

theorem commitTo_changes (hx : x.log.applied≤x.log.committed) (i : Nat) :
    Changes P x (x.setLog (x.log.commitTo i).1) := by
  have hc := x.log.committed_le_commitTo i
  rw [RaftLog.commitTo_fst] at hc ⊢
  refine .single ⟨_,.cursors hc le_rfl (hx.trans hc) ?_⟩
  split_ifs <;> omega

end LogSession

namespace Core

open LogSession

variable [Raftpb] {S : Message → Prop} {P : LogSession → Handout → Prop} {c c' : Core}
  {x : LogSession}

/-- What a move of the node does to its log. -/
structure Logs (P : LogSession → Handout → Prop) (x : LogSession) (c' : Core) : Prop where
  changes : Changes P x (x.setLog c'.raftLog)
  storage : c'.raftLog.storage=x.log.storage
  committed : x.log.committed≤c'.raftLog.committed

theorem Logs.stay (h : c'.raftLog=x.log) : Logs P x c' := by
  refine ⟨?_,by rw [h],by rw [h]⟩
  rw [h]
  exact .refl

theorem Logs.commitTo {i : Nat} (hx : x.Base) (h : c'.raftLog=(x.log.commitTo i).1) :
    Logs P x c' := by
  refine ⟨?_,?_,?_⟩
  · rw [h]
    exact commitTo_changes hx.applied i
  · rw [h,RaftLog.commitTo_storage]
  · rw [h]
    exact x.log.committed_le_commitTo i

theorem Logs.append {q : Nat} {ents : List Entry} (hn : Numbered q ents)
    (h : x.log.append ents=.ok c'.raftLog) : Logs P x c' := by
  have hspec := RaftLog.append_spec h
  exact ⟨.single ⟨_,.append hn h⟩,by rw [hspec],by rw [hspec]⟩

theorem Logs.maybeAppend {index logTerm committed : Nat} {ents : List Entry} {last : Option Nat}
    (hx : x.Base) (hn : Numbered index ents)
    (h : x.log.maybeAppend index logTerm committed ents=.ok (c'.raftLog,last)) : Logs P x c' := by
  rcases RaftLog.maybeAppend_cases hn h with heq | ⟨j,l1,h1,heq⟩
  · exact .stay heq
  · have hspec := RaftLog.append_spec h1
    have hbase := hx.append (hn.drop j) h1
    have hle : (x.setLog l1).log.applied≤(x.setLog l1).log.committed := hbase.applied
    refine ⟨?_,?_,?_⟩
    · rw [heq]
      exact .head ⟨_,.append (hn.drop j) h1⟩ (commitTo_changes hle _)
    · rw [heq,RaftLog.commitTo_storage,hspec]
    · rw [heq]
      refine le_trans (le_of_eq ?_) (l1.committed_le_commitTo _)
      rw [hspec]

/-- The log of a node changes by appending, committing and restoring only. -/
theorem Move.logs (hS : ∀ m, S m → m.Fine) (hx : x.Base)
    (hold : x.log.storage.snapshot.index≤x.log.committed) (hlog : c.raftLog=x.log)
    (h : Move S c c') : Logs P x c' := by
  cases h with
  | send h => exact .stay (h.frame.raftLog.trans hlog)
  | follow | preStand | stand | poll | elect | pend | ack | vote | stale | skip => exact .stay hlog
  | append hlead hs happ hget =>
    rw [hlog] at happ
    exact .append (Raft.stampEntries_numbered _ _ _) happ
  | commit hlead hc =>
    rw [hlog] at hc
    rcases RaftLog.maybeCommit_spec hc with ⟨hb,-⟩ | ⟨-,-,-,heq⟩
    · cases hb
    · exact .commitTo hx heq
  | accept hm ht hterm hfol hle happ =>
    rw [hlog] at happ
    exact .maybeAppend hx ((hS _ hm).entries ht) happ
  | beat | forward =>
    rw [hlog]
    exact .commitTo hx rfl
  | restore prs hm ht hterm hfol hlt hmatch hacc =>
    rw [hlog] at hlt
    have hchange : Changes P x (x.setLog (x.log.restore _)) :=
      .single ⟨_,.restore hlt (hold.trans_lt hlt)⟩
    rw [← hlog] at hchange
    exact ⟨hchange,by rw [← hlog]; rfl,hlt.le⟩

theorem Logs.trans {c'' : Core} (h : Logs P x c') (h' : Logs P (x.setLog c'.raftLog) c'') :
    Logs P x c'' :=
  ⟨h.changes.trans h'.changes,h'.storage.trans h.storage,h.committed.trans h'.committed⟩

theorem HostMove.logs (hS : ∀ m, S m → m.Fine) (hx : x.Base)
    (hold : x.log.storage.snapshot.index≤x.log.committed) (hlog : c.raftLog=x.log)
    (h : HostMove S c c') : Logs P x c' := by
  cases h with
  | move h => exact h.logs hS hx hold hlog
  | applied happ =>
    rw [hlog] at happ
    rcases RaftLog.appliedTo_spec happ with ⟨-,rfl⟩ | ⟨-,hlow,hhigh,rfl⟩
    · exact .stay rfl
    exact ⟨.single ⟨_,.cursors le_rfl hlow hhigh
      (le_max_left _ _)⟩,rfl,le_rfl⟩
  | leave hlead hp happ hget =>
    rw [hlog] at happ
    exact .append (Raft.stampEntries_numbered _ _ _) happ

theorem HostMoves.logs (hS : ∀ m, S m → m.Fine) (hx : x.Base)
    (hold : x.log.storage.snapshot.index≤x.log.committed) (hlog : c.raftLog=x.log)
    (h : HostMoves S c c') : Logs P x c' := by
  induction h with
  | refl => exact .stay hlog
  | tail _ h ih =>
    refine ih.trans (HostMove.logs hS (hx.changes ih.changes) ?_ rfl h)
    rw [show (x.setLog _).log.storage=x.log.storage from ih.storage]
    exact hold.trans ih.committed

theorem Moves.logs (hS : ∀ m, S m → m.Fine) (hx : x.Base)
    (hold : x.log.storage.snapshot.index≤x.log.committed) (hlog : c.raftLog=x.log)
    (h : Moves S c c') : Logs P x c' := h.host.logs hS hx hold hlog

/-- Only a follower has a snapshot that is not in storage yet, one whose configuration it
has taken over. -/
def Calm (c : Core) : Prop := ∀ s, c.raftLog.unstable.snapshot=some s →
  c.state=.stateFollower ∧ isEmptySnap s=false ∧ s.confState.Accepted

omit [Raftpb] in
theorem Calm.settled (h : c.Calm) (hp : c.raftLog.hasPendingSnapshot=false) :
    c.raftLog.unstable.snapshot=none := by
  cases hs : c.raftLog.unstable.snapshot with
  | none => rfl
  | some s =>
    unfold RaftLog.hasPendingSnapshot at hp
    rw [hs] at hp
    have hne := (h s hs).2.1
    dsimp only at hp
    rw [hne] at hp
    cases hp

omit [Raftpb] in
theorem Calm.vacant (h : c.Calm) (hs : c.state≠.stateFollower) :
    c.raftLog.unstable.snapshot=none := by
  cases hn : c.raftLog.unstable.snapshot with
  | none => rfl
  | some s => exact absurd (h s hn).1 hs

omit [Raftpb] in
theorem Calm.of_none (h : c.raftLog.unstable.snapshot=none) : c.Calm := by
  intro s hs
  rw [h] at hs
  cases hs

omit [Raftpb] in
theorem Calm.of_same (h : c.Calm) (hsnap : c'.raftLog.unstable.snapshot=c.raftLog.unstable.snapshot)
    (hst : c'.state=c.state) : c'.Calm := by
  intro s hs
  rw [hst]
  exact h s (hsnap ▸ hs)

omit [Raftpb] in
theorem append_snapshot {l l' : RaftLog} {ents : List Entry} (h : l.append ents=.ok l') :
    l'.unstable.snapshot=l.unstable.snapshot := by
  unfold RaftLog.append at h
  split at h
  · cases h
    rfl
  · split at h
    · cases h
    · obtain ⟨u,hu,h⟩ := bind_eq_ok.mp h
      cases h
      unfold Unstable.truncateAndAppend at hu
      dsimp only at hu
      split at hu
      · cases hu
        rfl
      · split at hu
        · cases hu
          rfl
        · obtain ⟨kept,-,hu⟩ := bind_eq_ok.mp hu
          cases hu
          rfl

omit [Raftpb] in
theorem maybeAppend_snapshot {l l' : RaftLog} {index logTerm committed last : Nat}
    {ents : List Entry} (h : l.maybeAppend index logTerm committed ents=.ok (l',some last)) :
    l'.unstable.snapshot=l.unstable.snapshot := by
  obtain ⟨-,-,l1,h1,rfl⟩ := RaftLog.maybeAppend_spec h
  rw [RaftLog.commitTo_unstable]
  unfold RaftLog.appendFrom at h1
  split at h1
  · cases h1
    rfl
  · split at h1
    · cases h1
    · split at h1
      · cases h1
      · exact append_snapshot h1

theorem Move.calm (hc : c.Calm) (h : Move S c c') : c'.Calm := by
  cases h with
  | send h => exact hc.of_same (by rw [h.frame.raftLog]) h.frame.state
  | follow =>
    intro s hs
    exact ⟨rfl,(hc s hs).2⟩
  | preStand _ hup => exact .of_none (hc.settled hup.settled)
  | stand _ hpre =>
    refine .of_none ?_
    rcases hpre with hpre | hup
    · exact hc.vacant (by rw [hpre]; nofun)
    · exact hc.settled hup.settled
  | poll | pend | ack | vote | stale | skip => exact hc.of_same rfl rfl
  | elect hcand => exact .of_none (hc.vacant (by rw [hcand]; nofun))
  | append _ _ happ => exact hc.of_same (append_snapshot happ) rfl
  | commit _ hl =>
    refine hc.of_same ?_ rfl
    rcases RaftLog.maybeCommit_spec hl with ⟨hb,-⟩ | ⟨-,-,-,rfl⟩
    · cases hb
    · exact congrArg Unstable.snapshot (RaftLog.commitTo_unstable _ _)
  | accept _ _ _ _ _ happ => exact hc.of_same (maybeAppend_snapshot happ) rfl
  | beat | forward =>
    exact hc.of_same (congrArg Unstable.snapshot (RaftLog.commitTo_unstable _ _)) rfl
  | restore _ _ _ _ hfol hlt _ hacc =>
    intro s hs
    cases hs
    exact ⟨hfol,decide_eq_false (by omega),hacc⟩

theorem HostMove.calm (hc : c.Calm) (h : HostMove S c c') : c'.Calm := by
  cases h with
  | move h => exact h.calm hc
  | applied happ =>
    refine hc.of_same ?_ rfl
    rcases RaftLog.appliedTo_spec happ with ⟨-,rfl⟩ | ⟨-,-,-,rfl⟩ <;> rfl
  | leave _ _ happ => exact hc.of_same (append_snapshot happ) rfl

theorem HostMoves.calm (hc : c.Calm) (h : HostMoves S c c') : c'.Calm := by
  induction h with
  | refl => exact hc
  | tail _ h ih => exact h.calm ih

theorem Moves.calm (hc : c.Calm) (h : Moves S c c') : c'.Calm := HostMoves.calm hc h.host

/-- The raft itself does not write to storage, and the applied index moves in Advance only. -/
theorem Move.fixed (h : Move S c c') : c'.raftLog.storage=c.raftLog.storage ∧
    c'.raftLog.applied=c.raftLog.applied := by
  cases h with
  | send h =>
    rw [h.frame.raftLog]
    exact ⟨rfl,rfl⟩
  | follow | preStand | stand | poll | elect | pend | ack | vote | stale | skip | restore =>
    exact ⟨rfl,rfl⟩
  | append _ _ happ =>
    have hspec := RaftLog.append_spec happ
    have hstorage := congrArg RaftLog.storage hspec
    have happlied := congrArg RaftLog.applied hspec
    exact ⟨hstorage,happlied⟩
  | commit _ hl =>
    rcases RaftLog.maybeCommit_spec hl with ⟨hb,-⟩ | ⟨-,-,-,rfl⟩
    · cases hb
    · exact ⟨RaftLog.commitTo_storage _ _,RaftLog.commitTo_applied _ _⟩
  | accept _ _ _ _ _ happ =>
    obtain ⟨-,-,l1,h1,rfl⟩ := RaftLog.maybeAppend_spec happ
    have hspec := RaftLog.appendFrom_spec h1
    refine ⟨(RaftLog.commitTo_storage _ _).trans ?_,(RaftLog.commitTo_applied _ _).trans ?_⟩
    · rw [hspec]
    · rw [hspec]
  | beat | forward => exact ⟨RaftLog.commitTo_storage _ _,RaftLog.commitTo_applied _ _⟩

theorem Moves.fixed (h : Moves S c c') : c'.raftLog.storage=c.raftLog.storage ∧
    c'.raftLog.applied=c.raftLog.applied := by
  induction h with
  | refl => exact ⟨rfl,rfl⟩
  | tail _ h ih => exact ⟨h.fixed.1.trans ih.1,h.fixed.2.trans ih.2⟩

omit [Raftpb] in
theorem append_grows {l l' : RaftLog} {t : Nat} {es : List Entry}
    (h : l.append (Raft.stampEntries t l.lastIndex es)=.ok l') : l.lastIndex≤l'.lastIndex := by
  by_cases hne : Raft.stampEntries t l.lastIndex es=[]
  · rw [hne] at h
    cases h
    exact le_rfl
  · rw [RaftLog.append_lastIndex (Raft.stampEntries_numbered _ _ _) hne h]
    exact Nat.le_add_right _ _

end Core

namespace Raft

variable {r r' : Raft}

theorem appendEntry_same {es : List Entry} {b : Bool} (h : r.appendEntry es=.ok (r',b)) :
    r'.term=r.term ∧ r'.state=r.state := by
  rcases appendEntry_spec h with ⟨-,rfl,-⟩ | ⟨-,-,l,pr,changed,-,-,hc⟩
  · exact ⟨rfl,rfl⟩
  · obtain ⟨k,rfl⟩ := maybeCommit_eq hc
    exact ⟨rfl,rfl⟩

theorem appendEntry_log {es : List Entry} {b : Bool} (h : r.appendEntry es=.ok (r',b)) :
    r'.raftLog.applied=r.raftLog.applied ∧
      r'.raftLog.unstable.snapshot=r.raftLog.unstable.snapshot := by
  unfold appendEntry increaseUncommittedSize at h
  dsimp only at h
  split at h <;> dsimp only at h
  · simp only [Bool.not_false,if_true] at h
    cases h
    exact ⟨rfl,rfl⟩
  · simp only [Bool.not_true,Bool.false_eq_true,if_false] at h
    obtain ⟨l,hl,h⟩ := bind_eq_ok.mp h
    have happlied : l.applied=r.raftLog.applied := by rw [RaftLog.append_spec hl]
    have hsnap := Core.append_snapshot hl
    split at h
    · cases h
    · obtain ⟨⟨r1,b1⟩,hc,h⟩ := bind_eq_ok.mp h
      cases h
      obtain ⟨⟨l',changed⟩,hl',hc⟩ := bind_eq_ok.mp hc
      cases hc
      rcases RaftLog.maybeCommit_spec hl' with ⟨-,rfl⟩ | ⟨-,-,-,rfl⟩
      · exact ⟨happlied,hsnap⟩
      · refine ⟨(RaftLog.commitTo_applied _ _).trans happlied,?_⟩
        exact (congrArg Unstable.snapshot (RaftLog.commitTo_unstable _ _)).trans hsnap

/-- Advance moves the applied index to its cursor. The unstable part of the log stays as
it is, unless a leader goes on to leave its joint configuration. -/
theorem advanceApplied_log {n : Nat} (h : r.advanceApplied n=.ok r') :
    r'.raftLog.applied=max r.raftLog.applied n ∧
      r'.raftLog.unstable.snapshot=r.raftLog.unstable.snapshot ∧
      (r'.raftLog.unstable=r.raftLog.unstable ∨ r.state=.stateLeader) := by
  unfold advanceApplied at h
  split at h
  · rename_i hn
    cases h
    subst hn
    exact ⟨(Nat.max_zero _).symm,rfl,.inl rfl⟩
  · rename_i hn
    obtain ⟨l,hl,h⟩ := bind_eq_ok.mp h
    have hl' : l={ r.raftLog with applied := n } ∧ r.raftLog.applied≤n := by
      rcases RaftLog.appliedTo_spec hl with ⟨hz,-⟩ | ⟨-,hle,-,rfl⟩
      · exact absurd hz hn
      · exact ⟨rfl,hle⟩
    obtain ⟨rfl,hle⟩ := hl'
    rw [Nat.max_eq_right hle]
    dsimp only at h
    split at h
    · rename_i hleave
      obtain ⟨⟨r1,accepted⟩,happ,h⟩ := bind_eq_ok.mp h
      obtain ⟨happlied,hsnap⟩ := appendEntry_log happ
      dsimp only at h
      split at h
      · cases h
      · cases h
        exact ⟨happlied,hsnap,.inr hleave.2.2.2⟩
    · cases h
      exact ⟨rfl,rfl,.inl rfl⟩

end Raft

end RaftTesting
