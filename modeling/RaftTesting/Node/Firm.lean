import RaftTesting.Log.Tidy
import RaftTesting.Node.Start

namespace RaftTesting

/-- The terms that a MsgApp tells are terms of entries, except before the first one. -/
structure Message.Anchored (m : Message) : Prop where
  base : m.type=.msgApp → m.logTerm=0 → m.index=0
  terms : m.type=.msgApp → ∀ e ∈ m.entries, e.term≠0

instance decidableAnchored (m : Message) : Decidable m.Anchored :=
  decidable_of_iff ((m.type=.msgApp → m.logTerm=0 → m.index=0) ∧
      (m.type=.msgApp → ∀ e ∈ m.entries, e.term≠0))
    ⟨fun h => ⟨h.1,h.2⟩,fun h => ⟨h.1,h.2⟩⟩

namespace RaftLog

/-- The dummy of a readable log is not ahead of its end. -/
theorem Readable.index_le {l : RaftLog} (h : l.Readable) : l.view.index≤l.lastIndex := by
  rw [h.lastIndex_eq]
  exact Nat.le_add_right _ _

/-- With no snapshot pending, what hup reads before a campaign is inside of the log. -/
theorem committed_le_of_slice [Raftpb] {l : RaftLog} {lo n : Nat} {ents : List Entry}
    (hr : l.Readable) (h : l.slice lo (l.committed+1) n=.ok (.ok ents)) :
    l.committed≤l.lastIndex := by
  obtain ⟨-,-,hle,-⟩ := slice_reads h
  have hfirst := l.firstIndex_eq_view
  have hidx := hr.index_le
  omega

end RaftLog

namespace Core

open LogSession

/-- The log of a node in its session. Only a follower may have heard of a commit index that
its log does not reach. -/
structure Firm (x : LogSession) (c : Core) : Prop where
  base : (x.setLog c.raftLog).Base
  old : c.raftLog.storage.snapshot.index≤c.raftLog.committed
  calm : c.Calm
  tidy : (x.setLog c.raftLog).Tidy
  settled : c.state≠.stateFollower → c.raftLog.committed≤c.raftLog.lastIndex

variable {x : LogSession} {c c' : Core}

/-- The log of any other node than a follower can be read through. -/
theorem Firm.readable (h : Firm x c) (hs : c.state≠.stateFollower) : c.raftLog.Readable :=
  h.tidy.readable h.base (h.calm.vacant hs)

section

variable [Raftpb] {S : Message → Prop}

theorem Firm.hup (h : Firm x c) (hup : c.HupOk) : c.raftLog.committed≤c.raftLog.lastIndex := by
  obtain ⟨ents,hslice,-⟩ := hup.checked
  have hnone := h.calm.settled hup.settled
  exact RaftLog.committed_le_of_slice (h.tidy.readable h.base hnone) hslice

omit [Raftpb] in
theorem Firm.committed_commitTo {l : RaftLog} (n : Nat) (h : l.committed≤l.lastIndex) :
    (l.commitTo n).1.committed≤(l.commitTo n).1.lastIndex := by
  rw [RaftLog.commitTo_fst]
  change (if _ then _ else _)≤l.lastIndex
  split_ifs <;> omega

omit [Raftpb] in
theorem Firm.committed_append {l l' : RaftLog} {t : Nat} {es : List Entry}
    (h : l.committed≤l.lastIndex)
    (happ : l.append (Raft.stampEntries t l.lastIndex es)=.ok l') : l'.committed≤l'.lastIndex := by
  have hc : l'.committed=l.committed := by rw [RaftLog.append_spec happ]
  by_cases hne : Raft.stampEntries t l.lastIndex es=[]
  · rw [hne] at happ
    cases happ
    exact h
  · have hlast := RaftLog.append_lastIndex (Raft.stampEntries_numbered _ _ _) hne happ
    omega

/-- A message leaves the log of a node tidy: it goes on behind a position that it has. -/
theorem Move.tidy (hS : ∀ m, S m → m.Fine ∧ m.Anchored) (h : Firm x c) (hm : Move S c c') :
    (x.setLog c'.raftLog).Tidy := by
  cases hm with
  | send hs =>
    rw [hs.frame.raftLog]
    exact h.tidy
  | follow | preStand | stand | poll | elect | pend | ack | vote | stale | skip => exact h.tidy
  | append _ _ happ =>
    exact h.tidy.append h.base (Raft.stampEntries_numbered _ _ _) (fun _ => le_rfl) happ
  | commit _ hl =>
    rcases RaftLog.maybeCommit_spec hl with ⟨hb,-⟩ | ⟨-,-,-,rfl⟩
    · cases hb
    · exact h.tidy.cursors (RaftLog.commitTo_unstable _ _) (RaftLog.commitTo_storage _ _)
  | @accept m l last hm ht _ _ _ happ =>
    obtain ⟨hfine,hanch⟩ := hS _ hm
    have hn := hfine.entries ht
    obtain ⟨j,l1,hj,h1,rfl⟩ :=
      RaftLog.maybeAppend_within hn (hanch.base ht) (hanch.terms ht) happ
    have htidy : (x.setLog l1).Tidy := by
      refine h.tidy.append h.base (hn.drop j) (fun hne => hj ?_) h1
      by_contra hge
      exact hne (List.drop_eq_nil_of_le (Nat.not_lt.mp hge))
    exact htidy.cursors (RaftLog.commitTo_unstable _ _) (RaftLog.commitTo_storage _ _)
  | beat | forward =>
    exact h.tidy.cursors (RaftLog.commitTo_unstable _ _) (RaftLog.commitTo_storage _ _)
  | restore prs _ _ _ _ hlt => exact Tidy.restore h.base hlt

theorem Move.settled (h : Firm x c) (hm : Move S c c') (hs : c'.state≠.stateFollower) :
    c'.raftLog.committed≤c'.raftLog.lastIndex := by
  cases hm with
  | send hsend =>
    rw [hsend.frame.raftLog]
    exact h.settled (hsend.frame.state ▸ hs)
  | follow => exact absurd rfl hs
  | preStand _ hup => exact h.hup hup
  | stand _ hpre =>
    rcases hpre with hpre | hup
    · refine h.settled ?_
      rw [hpre]
      nofun
    · exact h.hup hup
  | elect hcand =>
    refine h.settled ?_
    rw [hcand]
    nofun
  | poll | pend | ack | vote => exact h.settled hs
  | append _ _ happ => exact Firm.committed_append (h.settled hs) happ
  | commit _ hl =>
    rcases RaftLog.maybeCommit_spec hl with ⟨hb,-⟩ | ⟨-,-,-,rfl⟩
    · cases hb
    · exact Firm.committed_commitTo _ (h.settled hs)
  | accept _ _ _ hfol | stale _ _ _ hfol | beat _ _ _ hfol | skip _ _ _ hfol
  | forward _ _ _ hfol | restore _ _ _ _ hfol => exact absurd hfol hs

theorem Move.firm (hS : ∀ m, S m → m.Fine ∧ m.Anchored) (h : Firm x c) (hm : Move S c c') :
    Firm x c' := by
  have hl : Logs (fun _ _ => True) (x.setLog c.raftLog) c' :=
    hm.logs (fun m hm => (hS m hm).1) h.base h.old rfl
  have hstorage : c'.raftLog.storage=c.raftLog.storage := hl.storage
  have hcommitted : c.raftLog.committed≤c'.raftLog.committed := hl.committed
  refine ⟨h.base.changes hl.changes,?_,hm.calm h.calm,hm.tidy hS h,hm.settled h⟩
  rw [hstorage]
  exact h.old.trans hcommitted

theorem HostMove.firm (hS : ∀ m, S m → m.Fine ∧ m.Anchored) (h : Firm x c)
    (hm : HostMove S c c') : Firm x c' := by
  have hl : Logs (fun _ _ => True) (x.setLog c.raftLog) c' :=
    hm.logs (fun m hm => (hS m hm).1) h.base h.old rfl
  have hstorage : c'.raftLog.storage=c.raftLog.storage := hl.storage
  have hcommitted : c.raftLog.committed≤c'.raftLog.committed := hl.committed
  have hbase := h.base.changes hl.changes
  have hcalm := hm.calm h.calm
  cases hm with
  | move hm => exact hm.firm hS h
  | @applied l n happ =>
    have hsame : l.unstable=c.raftLog.unstable ∧ l.committed=c.raftLog.committed ∧
        l.lastIndex=c.raftLog.lastIndex := by
      rcases RaftLog.appliedTo_spec happ with ⟨-,rfl⟩ | ⟨-,-,-,rfl⟩ <;> exact ⟨rfl,rfl,rfl⟩
    refine ⟨hbase,?_,hcalm,h.tidy.cursors hsame.1 hstorage,fun hs => ?_⟩
    · rw [hstorage]
      exact h.old.trans hcommitted
    · change l.committed≤l.lastIndex
      rw [hsame.2.1,hsame.2.2]
      exact h.settled hs
  | leave hlead _ happ =>
    refine ⟨hbase,?_,hcalm,?_,fun hs => Firm.committed_append (h.settled hs) happ⟩
    · rw [hstorage]
      exact h.old.trans hcommitted
    · exact h.tidy.append h.base (Raft.stampEntries_numbered _ _ _) (fun _ => le_rfl) happ

theorem HostMoves.firm (hS : ∀ m, S m → m.Fine ∧ m.Anchored) (h : Firm x c)
    (hm : HostMoves S c c') : Firm x c' := by
  induction hm with
  | refl => exact h
  | tail _ hm ih => exact hm.firm hS ih

theorem Moves.firm (hS : ∀ m, S m → m.Fine ∧ m.Anchored) (h : Firm x c) (hm : Moves S c c') :
    Firm x c' := HostMoves.firm hS h hm.host

end

end Core

namespace Session

open LogSession RaftTesting.Core

variable [Raftpb] {x x' y : Session} {a : Act} {acts : List Act}

/-- Appends carry the terms of entries. -/
def Anchored (_ : Session) : Act → Prop
  | .step m => m.Anchored
  | _ => True

instance decidableAnchored (x : Session) : (a : Act) → Decidable (x.Anchored a)
  | .step m => inferInstanceAs (Decidable m.Anchored)
  | .tick | .applyConfChange _ | .ready | .save | .append | .compact _ | .advance => .isTrue trivial

def Firm (x : Session) : Prop := x.rn.raft.core.Firm x.log

omit [Raftpb] in
theorem Firm.sane (h : x.Firm) : x.Sane := ⟨h.base,h.old,h.calm⟩

omit [Raftpb] in
/-- The raft has made moves that leave the applied index alone. -/
theorem Firm.setRaft {r : Raft} (h : r.core.Firm x.log)
    (ha : r.raftLog.applied=x.raftLog.applied) : (x.setRaft r).Firm := by
  have heq : (x.setRaft r).log=x.log.setLog r.raftLog := by
    unfold log LogSession.setLog raftLog Session.setRaft
    dsimp only
    rw [ha]
    rfl
  unfold Firm
  rw [heq]
  exact ⟨h.base,h.old,h.calm,h.tidy,h.settled⟩

theorem Firm.moves {c : Core} {r : Raft} (h : x.Firm) (hlog : c.raftLog=x.raftLog)
    (hstate : c.state=x.rn.raft.state)
    (hm : Moves (fun m => m.Fine ∧ m.Anchored) c r.core) : (x.setRaft r).Firm := by
  have hc : c.Firm x.log := by
    refine ⟨?_,?_,h.calm.of_same ?_ hstate,?_,?_⟩
    · rw [hlog]
      exact h.base
    · rw [hlog]
      exact h.old
    · rw [hlog]
      rfl
    · rw [hlog]
      exact h.tidy
    · rw [hlog,hstate]
      exact h.settled
  refine Firm.setRaft (Moves.firm (fun m hm => hm) hc hm) ?_
  rw [← hlog]
  exact hm.fixed.2

omit [Raftpb] in
/-- Writing to storage does not move the end of the log of any other node than a follower. -/
theorem Firm.write {ms : MemoryStorage} {stage : Stage} (h : x.Firm)
    (hs : (x.write ms stage).Sane) (ht : (x.log.write ms stage).Tidy)
    (hl : x.raftLog.unstable.snapshot=none →
      (x.write ms stage).raftLog.lastIndex=x.raftLog.lastIndex) : (x.write ms stage).Firm := by
  refine ⟨hs.base,hs.old,hs.calm,ht,fun hne => ?_⟩
  have hle : x.raftLog.committed≤x.raftLog.lastIndex := h.settled hne
  rw [← hl (h.calm.vacant hne)] at hle
  exact hle

omit [Raftpb] in
/-- With no snapshot pending none was handed out, so none is written. -/
theorem Sane.save_last {w : Work} (h : x.Sane) (hw : x.work=some w)
    (hnone : x.raftLog.unstable.snapshot=none) :
    ((x.raftLog.storage.saveHardState w.ready.hardState).install w.ready.snapshot).lastIndex=
      x.raftLog.storage.lastIndex := by
  have hsrc := (h.base.hand _ (log_pending hw)).source_none hnone
  have hempty : isEmptySnap w.ready.snapshot=true := source_isEmpty.mp hsrc
  rw [install_empty _ hempty]
  unfold MemoryStorage.saveHardState
  split <;> rfl

omit [Raftpb] in
theorem write_last {ms : MemoryStorage} {stage : Stage}
    (h : ms.lastIndex=x.raftLog.storage.lastIndex) :
    (x.write ms stage).raftLog.lastIndex=x.raftLog.lastIndex := by
  unfold RaftLog.lastIndex
  change (x.raftLog.unstable.maybeLastIndex).getD ms.lastIndex=_
  rw [h]

/-- The end of the log of a node without a pending snapshot stays where it is, whatever the
application writes. -/
theorem Sane.does_last (h : x.Sane) (hnone : x.raftLog.unstable.snapshot=none)
    (ha : a=.save ∨ a=.append ∨ ∃ i, a=.compact i) (hd : x.Does a x') :
    x'.raftLog.lastIndex=x.raftLog.lastIndex := by
  cases hd with
  | stay => rfl
  | save hw hst => exact write_last (h.save_last hw hnone)
  | append hw hst hms => exact h.base.store_lastIndex (log_pending hw) hst hms
  | compact hms =>
    obtain ⟨-,-,-,-,hlast,-⟩ := MemoryStorage.compact_spec h.base.stored hms
    exact write_last hlast
  | step | tick | applyConfChange | ready | advance =>
    rcases ha with ha | ha | ⟨i,ha⟩ <;> cases ha

omit [Raftpb] in
/-- The log reads storage below its offset only. -/
theorem write_entryAt {ms : MemoryStorage} {stage : Stage} {i : Nat}
    (h : i<x.raftLog.unstable.offset → ms.entryAt i=x.raftLog.storage.entryAt i ∨
      ms.entryAt i=none ∧ i≤x.raftLog.applied) :
    (x.write ms stage).raftLog.entryAt i=x.raftLog.entryAt i ∨
      (x.write ms stage).raftLog.entryAt i=none ∧ i≤x.raftLog.applied := by
  have hwrite : (x.write ms stage).raftLog.entryAt i=
      RaftLog.entryAt { x.raftLog with storage := ms } i := rfl
  rw [hwrite]
  by_cases hlt : i<x.raftLog.unstable.offset
  · rw [RaftLog.entryAt_of_lt hlt,
      RaftLog.entryAt_of_lt (l := { x.raftLog with storage := ms }) hlt]
    exact h hlt
  · have hle := Nat.not_lt.mp hlt
    rw [RaftLog.entryAt_of_le hle,RaftLog.entryAt_of_le (l := { x.raftLog with storage := ms }) hle]
    exact .inl rfl

/-- Without a snapshot what the application writes leaves the entries of a log alone, up to
those that it compacts. -/
theorem Firm.does_entryAt (h : x.Firm) (hnone : x.raftLog.unstable.snapshot=none)
    (hf : x.Fits a) (ha : a=.save ∨ a=.append ∨ ∃ i, a=.compact i) (hd : x.Does a x') (i : Nat) :
    x'.raftLog.entryAt i=x.raftLog.entryAt i ∨
      x'.raftLog.entryAt i=none ∧ i≤x.raftLog.applied := by
  cases hd with
  | stay => exact .inl rfl
  | @save w hw hst =>
    refine write_entryAt (fun _ => .inl ?_)
    have hsrc := (h.base.hand _ (log_pending hw)).source_none hnone
    have hempty : isEmptySnap w.ready.snapshot=true := source_isEmpty.mp hsrc
    rw [install_empty _ hempty]
    unfold MemoryStorage.saveHardState
    split <;> rfl
  | @append w ms hw hst hms =>
    have hp := log_pending hw
    have hwr := h.base.written hp hst hms
    refine write_entryAt (fun hlt => .inl ?_)
    by_cases hnil : w.handout.entries=[]
    · rw [hwr.none hnil]
      rfl
    · -- the handout begins where the unstable entries did, or later
      have hsrc := (h.base.hand _ hp).source_none hnone
      have hord : x.raftLog.unstable.offset≤w.handout.offset :=
        h.tidy.order _ hp (hnone.trans hsrc.symm)
      obtain ⟨-,-,hsame,-⟩ := hwr.ents hnil
      exact hsame i (Nat.lt_of_lt_of_le hlt hord)
  | @compact k ms hms =>
    obtain ⟨-,-,hdummy,-,-,-,-,-,hsame⟩ := MemoryStorage.compact_spec h.base.stored hms
    refine write_entryAt (fun _ => ?_)
    by_cases hk : k < i
    · exact .inl (hsame i hk)
    · have hle := Nat.not_lt.mp hk
      exact .inr ⟨MemoryStorage.entryAt_of_le (hdummy ▸ hle),hle.trans hf.1⟩
  | step | tick | applyConfChange | ready | advance =>
    rcases ha with ha | ha | ⟨i,ha⟩ <;> cases ha

omit [Raftpb] in
theorem Firm.vacant (h : x.Firm) (hs : x.rn.raft.state≠.stateFollower) :
    x.raftLog.unstable.snapshot=none := h.calm.vacant (c := x.rn.raft.core) hs

omit [Raftpb] in
theorem Firm.leader_vacant (h : x.Firm) (hl : x.rn.raft.state=.stateLeader) :
    x.raftLog.unstable.snapshot=none := by
  refine h.vacant ?_
  rw [hl]
  nofun

omit [Raftpb] in
/-- Nor does it move when Advance takes what is stored out of the unstable log. -/
theorem stabilize_last {w : Work} {l : RaftLog} (hbase : (x.log.setLog l).Base) (hw : x.work=some w)
    (hst : x.stage=.stored) (hnone : l.unstable.snapshot=none) :
    (w.ready.stabilize l).lastIndex=l.lastIndex := by
  have hp : (x.log.setLog l).pending=some w.handout := log_pending hw
  refine hbase.advance_lastIndex hp hst (fun _ => ?_)
  rw [(hbase.hand _ hp).source_none hnone]
  exact hnone

/-- Advance leaves the end of the log of any other node than a follower where it is. -/
theorem Firm.advance {w : Work} {rn : RawNode} (h : x.Firm) (hw : x.work=some w)
    (hst : x.stage=.stored) (hadv : x.rn.advance w.ready=.ok rn)
    (hs : Sane { rn := rn, handed := x.handed }) :
    Firm { rn := rn, handed := x.handed } := by
  obtain ⟨r',hr',hadv⟩ := bind_eq_ok.mp hadv
  cases hadv
  obtain ⟨r1,h1,hr'⟩ := bind_eq_ok.mp hr'
  cases hr'
  have hm : HostMoves (fun m => m.Fine ∧ m.Anchored) x.rn.raft.core r1.core :=
    Raft.advanceApplied_moves (r := x.rn.raft.reduceUncommittedSize _) h1
  have hf := hm.firm (fun _ hm => hm) h
  have hp : (x.log.setLog r1.raftLog).pending=some w.handout := log_pending hw
  refine ⟨hs.base,hs.old,hs.calm,?_,fun hne => ?_⟩
  · have ht := hf.tidy.advance hf.base hp hst
    exact ⟨ht.stable,nofun,nofun⟩
  · have hlast : (w.ready.stabilize r1.raftLog).lastIndex=r1.raftLog.lastIndex :=
      stabilize_last hf.base hw hst (hf.calm.vacant hne)
    change (w.ready.stabilize r1.raftLog).committed≤(w.ready.stabilize r1.raftLog).lastIndex
    rw [hlast,w.ready.stabilize_eq r1.raftLog]
    exact hf.settled hne

theorem Firm.act (h : x.Firm) (hf : x.Fits a) (ha : x.Anchored a) (hact : x.act a=.ok x') :
    x'.Firm := by
  have hdoes := act_does hact
  obtain ⟨hs,-⟩ := h.sane.does (P := fun _ _ => True) hf (fun _ _ _ _ _ _ => trivial) hdoes
  cases hdoes with
  | stay => exact h
  | step hr => exact h.moves rfl rfl (Raft.step_moves (fun _ => ⟨hf,ha⟩) hf.stamped hr)
  | tick hr => exact h.moves rfl rfl (Raft.tick_moves hr)
  | @applyConfChange cc r cs hr =>
    obtain ⟨t,-,hm⟩ := Raft.applyConfChange_moves hr
    have hfirm : (x.setRaft r).Firm := h.moves (c := x.rn.raft.core.install t) rfl rfl hm
    exact ⟨hfirm.base,hfirm.old,hfirm.calm,hfirm.tidy,hfirm.settled⟩
  | ready hw hr =>
    have ht := h.tidy.ready h.base (ready_handout hr)
    exact ⟨hs.base,hs.old,hs.calm,ht,h.settled⟩
  | save hw hst =>
    have hlast := h.sane.save_last hw
    refine h.write hs (h.tidy.write (fun hnone hne => ?_)) (fun hnone => write_last (hlast hnone))
    rw [hlast hnone]
    exact h.tidy.stable hnone hne
  | append hw hst hms =>
    have hp := log_pending hw
    exact h.write hs (h.tidy.store h.base hp hst hms)
      (fun _ => h.base.store_lastIndex hp hst hms)
  | compact hms =>
    obtain ⟨-,-,-,-,hlast,-⟩ := MemoryStorage.compact_spec h.base.stored hms
    exact h.write hs (h.tidy.compact h.base hms) (fun _ => write_last hlast)
  | advance hw hst hadv => exact h.advance hw hst hadv hs

theorem Start.firm (hx : x.Start) : x.Firm := by
  obtain ⟨hs,hj⟩ := hx.sane
  exact ⟨hs.base,hs.old,hs.calm,hj.tidy,fun _ => hj.committed⟩

theorem run_firm (hx : x.Start) (hfits : x.Along Fits acts) (hanch : x.Along Anchored acts)
    (hy : x.run acts=.ok y) : y.Firm :=
  run_induct (I := Firm) (fun _ _ _ h hP hact => h.act hP.1 hP.2 hact) hx.firm
    (hfits.and hanch) hy

end Session

end RaftTesting
