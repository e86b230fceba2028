import RaftTesting.Log.View
import RaftTesting.Node.HardState
import RaftTesting.Node.Start

namespace RaftTesting

theorem MemoryStorage.append_hardState {ms ms' : MemoryStorage} {ents : List Entry}
    (h : ms.append ents=.ok ms') : ms'.hardState=ms.hardState := by
  unfold append at h
  split at h
  · cases h
    rfl
  · dsimp only at h
    split at h
    · cases h
      rfl
    · split at h
      · cases h
      · unfold appendAt at h
        dsimp only at h
        split at h <;> cases h
        rfl

theorem MemoryStorage.install_hardState (ms : MemoryStorage) (sn : Snapshot) :
    (ms.install sn).hardState=ms.hardState := by
  unfold install applySnapshot
  split
  · rfl
  · split
    · rename_i h
      split at h <;> cases h
      rfl
    · rfl

theorem MemoryStorage.loaded_of_empty {ms : MemoryStorage} (h : ms.hardState={}) :
    ms.loaded=⟨0,noNode,ms.dummy.index⟩ := if_pos h

theorem MemoryStorage.loaded_of_ne {ms : MemoryStorage} (h : ms.hardState≠{}) :
    ms.loaded=ms.hardState := if_neg h

/-- The hard state is never taken back to the initial one. -/
theorem HardLe.nonempty {r r' : Raft} (h : HardLe r.core r'.core) (hne : r.hardState≠{}) :
    r'.hardState≠{} := by
  intro hz
  have hterm : r'.term=0 := congrArg HardState.term hz
  have hvote : r'.vote=0 := congrArg HardState.vote hz
  have hcommit : r'.raftLog.committed=0 := congrArg HardState.commit hz
  have h1 : r.term≤r'.term := h.term
  have h2 : r.raftLog.committed≤r'.raftLog.committed := h.committed
  have h3 : r.vote=0 := by
    by_contra hv
    have hkeep : r'.vote=r.vote := h.vote (by change r'.term=r.term; omega) hv
    omega
  refine hne ?_
  unfold Raft.hardState
  rw [h3,show r.term=0 by omega,show r.raftLog.committed=0 by omega]

namespace Session

open LogSession RaftTesting.Core

/-- A start on the storage gives the hard state that the last Ready was compared with;
after Bootstrap the first Ready has one in any case. -/
def Settled (ms : MemoryStorage) (prev : HardState) (committed : Nat) : Prop :=
  ms.loaded=prev ∨ prev={} ∧ 0<committed

/-- What is known about the Ready that the application works on. -/
structure Held (x : Session) (w : Work) : Prop where
  base : LogSession.Base { log := w.origin.raftLog, settled := w.origin.raftLog.applied }
  committed : w.origin.raftLog.committed≤w.origin.raftLog.lastIndex
  hardState : w.ready.hardState={} ∧ w.origin.hardState=x.rn.prevHardSt ∨
    w.ready.hardState=w.origin.hardState ∧ w.origin.hardState≠{}
  lasting : w.origin.hardState≠{} → x.rn.raft.hardState≠{}
  accepted : isEmptySnap w.ready.snapshot=false → w.ready.snapshot.confState.Accepted
  handed : x.stage=.handed → x.raftLog.storage=w.origin.raftLog.storage ∧
    Settled x.raftLog.storage x.rn.prevHardSt w.origin.raftLog.committed
  installed : x.stage=.installed → x.raftLog.storage=
    (w.origin.raftLog.storage.saveHardState w.ready.hardState).install w.ready.snapshot
  loaded : x.stage≠.handed → x.raftLog.storage.loaded=w.origin.hardState

/-- What the application has saved adds up to the state of the node. -/
structure Durable [Raftpb] (x : Session) : Prop where
  sane : x.Sane
  accepted : x.raftLog.storage.snapshot.confState.Accepted
  bare : x.raftLog.storage.hardState={} → x.raftLog.applied=x.raftLog.storage.dummy.index
  lasting : x.rn.prevHardSt≠{} → x.rn.raft.hardState≠{}
  idle : x.work=none → Settled x.raftLog.storage x.rn.prevHardSt x.raftLog.committed
  held : ∀ w, x.work=some w → x.Held w
  handout : ∀ w, x.work=some w → w.origin.raftLog.handout=.ok w.handout

section

variable [Raftpb] {x x' : Session}

theorem Does.hardLe {a : Act} (hf : x.Fits a) (h : x.Does a x') :
    HardLe x.rn.raft.core x'.rn.raft.core := by
  cases h with
  | stay => exact .refl _
  | step h => exact (Raft.step_moves (S := Message.Fine) (fun _ => hf) hf.stamped h).hardLe
  | tick h => exact (Raft.tick_moves (S := Message.Fine) h).hardLe
  | applyConfChange h =>
    obtain ⟨t,-,hm⟩ := Raft.applyConfChange_moves (S := Message.Fine) h
    have hinstall : HardLe x.rn.raft.core (x.rn.raft.core.install t) := .of_log rfl rfl le_rfl
    exact hinstall.trans hm.hardLe
  | ready | save | append | compact => exact .of_log rfl rfl le_rfl
  | @advance w rn hw hst h =>
    have hop : x.rn.runOp (.advance w.ready)=.ok rn := h
    exact RawNode.runOp_hardLe (fun m hm => by cases hm) hop

/-- The raft moves on while the application is at work or idle. -/
theorem Durable.moves (hx : x.Durable) (hs : x'.Sane) (hw : x'.work=x.work)
    (hst : x'.stage=x.stage) (hp : x'.rn.prevHardSt=x.rn.prevHardSt)
    (hstorage : x'.raftLog.storage=x.raftLog.storage)
    (happlied : x'.raftLog.applied=x.raftLog.applied)
    (hle : HardLe x.rn.raft.core x'.rn.raft.core) : x'.Durable where
  sane := hs
  accepted := by
    rw [hstorage]
    exact hx.accepted
  bare := by
    rw [hstorage,happlied]
    exact hx.bare
  lasting := by
    rw [hp]
    exact fun hne => hle.nonempty (hx.lasting hne)
  idle := by
    intro hnone
    rw [hstorage,hp]
    rcases hx.idle (hw ▸ hnone) with h | ⟨h,hpos⟩
    · exact .inl h
    · exact .inr ⟨h,hpos.trans_le hle.committed⟩
  held := by
    intro w hsome
    have hh := hx.held w (hw ▸ hsome)
    refine ⟨hh.base,hh.committed,?_,fun hne => hle.nonempty (hh.lasting hne),hh.accepted,?_,?_,?_⟩
    · rw [hp]
      exact hh.hardState
    · rw [hst,hstorage,hp]
      exact hh.handed
    · rw [hst,hstorage]
      exact hh.installed
    · rw [hst,hstorage]
      exact hh.loaded
  handout := fun w hsome => hx.handout w (hw ▸ hsome)

theorem Durable.ready {rd : Ready} (hx : x.Durable) (hw : x.work=none)
    (h : x.rn.readyWithoutAccept=.ok rd) (hs : Session.Sane {
      rn := x.rn.acceptReady rd
      work := some ⟨rd,x.rn.raft⟩
      due := rd.committedEntries.filter Entry.isConf
      handed := x.handed++[⟨rd,x.rn.raft⟩] }) : Session.Durable {
      rn := x.rn.acceptReady rd
      work := some ⟨rd,x.rn.raft⟩
      due := rd.committedEntries.filter Entry.isConf
      handed := x.handed++[⟨rd,x.rn.raft⟩] } := by
  have hh := ready_handout h
  have hhard : rd.hardState=
      if x.rn.raft.hardState=x.rn.prevHardSt then {} else x.rn.raft.hardState := by
    obtain ⟨ents,-,h⟩ := bind_eq_ok.mp h
    cases h
    rfl
  have hbase : LogSession.Base { log := x.raftLog, settled := x.raftLog.applied } := by
    have hb := hx.sane.base
    have hidle := hb.idle (log_idle.mpr hw)
    have heq : x.log={ log := x.raftLog, settled := x.raftLog.applied } := by
      unfold log
      rw [hw,show x.stage=.handed from hidle]
      rfl
    exact heq ▸ hb
  refine ⟨hs,hx.accepted,hx.bare,hx.lasting,nofun,?_,?_⟩
  · intro w hw'
    cases hw'
    refine ⟨hbase,hx.sane.committed_le hw hh,?_,id,?_,?_,nofun,fun hne => absurd rfl hne⟩
    · change rd.hardState={} ∧ x.rn.raft.hardState=x.rn.prevHardSt ∨
        rd.hardState=x.rn.raft.hardState ∧ x.rn.raft.hardState≠{}
      rw [hhard]
      split_ifs with heq
      · exact .inl ⟨rfl,heq⟩
      · refine .inr ⟨rfl,?_⟩
        by_cases hprev : x.rn.prevHardSt={}
        · rw [← hprev]
          exact heq
        · exact hx.lasting hprev
    · intro hne
      have hsource := hbase.handout_source hh
      rw [source_of_nonempty hne] at hsource
      exact (hx.sane.calm _ hsource).2.2
    · exact fun _ => ⟨rfl,hx.idle hw⟩
  · intro w hw'
    cases hw'
    exact hh

/-- Saving the hard state and the snapshot of a Ready brings storage to the hard state of
the raft that produced it. -/
theorem Durable.saved {w : Work} (hx : x.Durable) (hw : x.work=some w) (hst : x.stage=.handed) :
    let ms := (x.raftLog.storage.saveHardState w.ready.hardState).install w.ready.snapshot
    ms.loaded=w.origin.hardState ∧ (ms.hardState={} → ms=x.raftLog.storage) := by
  have hh := hx.held w hw
  obtain ⟨-,hsettled⟩ := hh.handed hst
  dsimp only
  rcases hh.hardState with ⟨hempty,hprev⟩ | ⟨hnew,hne⟩
  · have hsave : x.raftLog.storage.saveHardState w.ready.hardState=x.raftLog.storage := if_pos hempty
    have hloaded : x.raftLog.storage.loaded=w.origin.hardState := by
      rcases hsettled with h | ⟨h,hpos⟩
      · rw [h,hprev]
      · have hzero : w.origin.raftLog.committed=0 := congrArg HardState.commit (hprev.trans h)
        omega
    rw [hsave]
    by_cases hbare : x.raftLog.storage.hardState={}
    · -- nothing has been committed since the start, so there is no snapshot either
      have hand := hx.sane.base.hand w.handout (log_pending hw)
      have happlied := hx.bare hbare
      rw [MemoryStorage.loaded_of_empty hbare] at hloaded
      have hcommit : x.raftLog.storage.dummy.index=w.origin.raftLog.committed :=
        congrArg HardState.commit hloaded
      have hnone : isEmptySnap w.ready.snapshot=true := by
        by_contra hsn
        have hsn := Bool.eq_false_iff.mpr hsn
        have h1 : x.raftLog.applied<w.ready.snapshot.index := hand.behind hsn
        have h2 : w.ready.snapshot.index≤w.handout.cursor := (hand.snapshot hsn).1
        have h3 : w.handout.cursor≤w.origin.raftLog.committed := hand.cursor
        omega
      rw [install_empty _ hnone,MemoryStorage.loaded_of_empty hbare]
      exact ⟨hloaded,fun _ => rfl⟩
    · have hkeep : (x.raftLog.storage.install w.ready.snapshot).hardState≠{} := by
        rw [MemoryStorage.install_hardState]
        exact hbare
      rw [MemoryStorage.loaded_of_ne hbare] at hloaded
      rw [MemoryStorage.loaded_of_ne hkeep,MemoryStorage.install_hardState]
      exact ⟨hloaded,fun hz => absurd hz hbare⟩
  · have hsave : (x.raftLog.storage.saveHardState w.ready.hardState).hardState=
        w.origin.hardState := by
      unfold MemoryStorage.saveHardState
      rw [hnew,if_neg hne]
      rfl
    have hkeep : ((x.raftLog.storage.saveHardState w.ready.hardState).install
        w.ready.snapshot).hardState=w.origin.hardState := by
      rw [MemoryStorage.install_hardState,hsave]
    rw [MemoryStorage.loaded_of_ne (hkeep ▸ hne),hkeep]
    exact ⟨rfl,fun hz => absurd hz hne⟩

/-- A write to storage that the start would not see. -/
theorem Durable.write {ms : MemoryStorage} {stage : Stage} (hx : x.Durable)
    (hs : (x.write ms stage).Sane) (hsnap : ms.snapshot.confState.Accepted)
    (hbare : ms.hardState={} → x.raftLog.applied=ms.dummy.index)
    (hidle : x.work=none → ms.loaded=x.raftLog.storage.loaded)
    (hheld : ∀ w, x.work=some w → stage≠.handed ∧ ms.loaded=w.origin.hardState ∧
      (stage=.installed → ms=
        (w.origin.raftLog.storage.saveHardState w.ready.hardState).install w.ready.snapshot)) :
    (x.write ms stage).Durable where
  sane := hs
  accepted := hsnap
  bare := hbare
  lasting := hx.lasting
  idle := by
    intro hw
    rcases hx.idle hw with h | h
    · exact .inl ((hidle hw).trans h)
    · exact .inr h
  held := by
    intro w hw
    have hh := hx.held w hw
    obtain ⟨h1,h2,h3⟩ := hheld w hw
    exact ⟨hh.base,hh.committed,hh.hardState,hh.lasting,hh.accepted,fun hst => absurd hst h1,
      h3,fun _ => h2⟩
  handout := hx.handout

theorem Durable.advance {w : Work} {rn : RawNode} (hx : x.Durable) (hw : x.work=some w)
    (hst : x.stage=.stored) (h : x.rn.advance w.ready=.ok rn)
    (hs : Session.Sane { rn := rn, handed := x.handed })
    (hle : HardLe x.rn.raft.core rn.raft.core) :
    Session.Durable { rn := rn, handed := x.handed } := by
  obtain ⟨-,hstorage,-,happlied,-⟩ := hx.sane.advance (P := fun _ _ => True) hw hst
    (fun _ _ => trivial) h
  have hh := hx.held w hw
  have hloaded := hh.loaded (by rw [hst]; nofun)
  have hand := hx.sane.base.hand w.handout (log_pending hw)
  have hprev : rn.prevHardSt=w.origin.hardState := by
    obtain ⟨r,-,h⟩ := bind_eq_ok.mp h
    cases h
    dsimp only
    rcases hh.hardState with ⟨hempty,heq⟩ | ⟨heq,hne⟩
    · rw [if_pos hempty,heq]
    · rw [heq,if_neg hne]
  exact {
    sane := hs
    accepted := by
      change rn.raft.raftLog.storage.snapshot.confState.Accepted
      rw [hstorage]
      exact hx.accepted
    bare := by
      change rn.raft.raftLog.storage.hardState={} → rn.raft.raftLog.applied=
        rn.raft.raftLog.storage.dummy.index
      rw [hstorage,happlied]
      intro hbare
      have hdummy := hx.bare hbare
      rw [MemoryStorage.loaded_of_empty hbare] at hloaded
      have hcommit : x.raftLog.storage.dummy.index=w.origin.raftLog.committed :=
        congrArg HardState.commit hloaded
      have hcursor : w.ready.appliedCursor≤w.origin.raftLog.committed := hand.cursor
      omega
    lasting := by
      change rn.prevHardSt≠{} → _
      rw [hprev]
      exact fun hne => hle.nonempty (hh.lasting hne)
    idle := by
      intro _
      left
      change rn.raft.raftLog.storage.loaded=rn.prevHardSt
      rw [hstorage,hprev]
      exact hloaded
    held := fun _ hw => nomatch hw
    handout := fun _ hw => nomatch hw }

theorem Durable.does {a : Act} (hx : x.Durable) (hf : x.Fits a) (h : x.Does a x') :
    x'.Durable := by
  obtain ⟨hs,-⟩ := hx.sane.does (P := fun _ _ => True) hf (fun _ _ _ _ _ _ => trivial) h
  have hle := h.hardLe hf
  cases h with
  | stay => exact hx
  | step h =>
    have hm := Raft.step_moves (S := Message.Fine) (fun _ => hf) hf.stamped h
    exact hx.moves hs rfl rfl rfl hm.fixed.1 hm.fixed.2 hle
  | tick h =>
    have hm := Raft.tick_moves (S := Message.Fine) h
    exact hx.moves hs rfl rfl rfl hm.fixed.1 hm.fixed.2 hle
  | applyConfChange h =>
    obtain ⟨t,-,hm⟩ := Raft.applyConfChange_moves (S := Message.Fine) h
    exact hx.moves hs rfl rfl rfl hm.fixed.1 hm.fixed.2 hle
  | ready hw h => exact hx.ready hw h hs
  | @save w hw hst =>
    obtain ⟨hloaded,hsame⟩ := hx.saved hw hst
    have hh := hx.held w hw
    refine hx.write hs ?_ ?_ ?_ ?_
    · rcases install_snapshot (x.raftLog.storage.saveHardState w.ready.hardState) w.ready.snapshot
        with hkeep | ⟨hne,hnew⟩
      · rw [hkeep,saveHardState_snapshot]
        exact hx.accepted
      · rw [hnew]
        exact hh.accepted hne
    · intro hbare
      have heq := hsame hbare
      rw [heq] at hbare
      rw [heq]
      exact hx.bare hbare
    · intro hnone
      rw [hw] at hnone
      cases hnone
    · intro w' hw'
      cases hw.symm.trans hw'
      refine ⟨nofun,hloaded,fun _ => ?_⟩
      rw [(hh.handed hst).1]
  | @append w ms hw hst hms =>
    have hh := hx.held w hw
    have hwritten := hx.sane.base.written (log_pending hw) hst hms
    have hhard := MemoryStorage.append_hardState hms
    have hdummy : ms.dummy.index=x.raftLog.storage.dummy.index :=
      congrArg Entry.index hwritten.dummy
    have hloaded : ms.loaded=x.raftLog.storage.loaded := by
      unfold MemoryStorage.loaded
      rw [hhard,hdummy]
    refine hx.write hs ?_ ?_ (fun _ => hloaded) ?_
    · rw [hwritten.snapshot]
      exact hx.accepted
    · rw [hhard,hdummy]
      exact hx.bare
    · intro w' hw'
      cases hw.symm.trans hw'
      exact ⟨nofun,hloaded.trans (hh.loaded (by rw [hst]; nofun)),nofun⟩
  | @compact i ms hms =>
    obtain ⟨hlt,-,-,-,-,hsnap,hhard,-⟩ := MemoryStorage.compact_spec hx.sane.base.stored hms
    -- a storage without a hard state has nothing to compact
    have hne : x.raftLog.storage.hardState≠{} := by
      intro hbare
      have happlied := hx.bare hbare
      have hle := hf.1
      change x.raftLog.storage.dummy.index < i at hlt
      omega
    have hloaded : ms.loaded=x.raftLog.storage.loaded := by
      rw [MemoryStorage.loaded_of_ne hne,MemoryStorage.loaded_of_ne (hhard ▸ hne),hhard]
      rfl
    refine hx.write hs ?_ ?_ (fun _ => hloaded) ?_
    · rw [hsnap]
      exact hx.accepted
    · intro hbare
      exact absurd (hhard ▸ hbare) hne
    · intro w hw
      have hst := hf.2 (by rw [hw]; nofun)
      have hh := hx.held w hw
      refine ⟨by rw [hst]; nofun,hloaded.trans (hh.loaded (by rw [hst]; nofun)),?_⟩
      rw [hst]
      nofun
  | advance hw hst h => exact hx.advance hw hst h hs hle

theorem Start.durable (h : x.Start) : x.Durable := by
  obtain ⟨hs,-⟩ := h.sane
  cases h with
  | fresh hms h =>
    obtain ⟨r,hr,h⟩ := bind_eq_ok.mp h
    cases h
    have hb := Raft.newRaft_begun hr
    obtain ⟨n,hlog⟩ := hb.log
    have hst : r.raftLog.storage=_ := congrArg RaftLog.storage hlog
    refine ⟨hs,?_,?_,id,fun _ => .inl ?_,(fun _ hw => nomatch hw),(fun _ hw => nomatch hw)⟩
    · change r.raftLog.storage.snapshot.confState.Accepted
      rw [hst]
      exact hb.accepted
    · change r.raftLog.storage.hardState={} → r.raftLog.applied=r.raftLog.storage.dummy.index
      rw [hst]
      intro hbare
      have h1 := hb.dummy
      have h2 := hb.applied
      rw [MemoryStorage.loaded_of_empty hbare] at h2
      exact le_antisymm h2 h1
    · change r.raftLog.storage.loaded=r.hardState
      rw [hst]
      exact hb.hardState.symm
  | @boot c draws rn rn' marshal peers hms h hboot =>
    obtain ⟨r,hr,h⟩ := bind_eq_ok.mp h
    cases h
    have hb := Raft.newRaft_begun hr
    obtain ⟨n,hlog⟩ := hb.log
    have hstorage : r.raftLog.storage=c.storage := congrArg RaftLog.storage hlog
    obtain ⟨hne,hlast,l,t,b,hl,rfl⟩ := RawNode.bootstrap_spec hboot
    have hents := bootstrapEntries_ne marshal hne
    obtain ⟨-,-,hst,happlied,-⟩ := boot_joined hms hb hlast
      (RawNode.bootstrapEntries_numbered marshal peers) hents hl
    refine ⟨hs,?_,?_,fun hne => absurd rfl hne,fun _ => .inr ⟨rfl,?_⟩,
      (fun _ hw => nomatch hw),(fun _ hw => nomatch hw)⟩
    · change l.storage.snapshot.confState.Accepted
      rw [hst]
      exact hb.accepted
    · change l.storage.hardState={} → l.applied=l.storage.dummy.index
      intro _
      have hle := c.storage.dummy_le_lastIndex
      change r.raftLog.storage.lastIndex=0 at hlast
      rw [hstorage] at hlast
      rw [hst,happlied]
      omega
    · exact List.length_pos_of_ne_nil hents

theorem Durable.run {acts : List Act} (hx : x.Durable) (hacts : x.Along Fits acts)
    (h : x.run acts=.ok x') : x'.Durable :=
  run_induct (fun _ _ _ hx hf h => hx.does hf (act_does h)) hx hacts h

/-- What is in storage once the Ready is saved is the log that it was produced from. -/
theorem Held.persisted {w : Work} {ms : MemoryStorage} (h : x.Held w)
    (hh : w.origin.raftLog.handout=.ok w.handout)
    (hms : ((w.origin.raftLog.storage.saveHardState w.ready.hardState).install
      w.ready.snapshot).append w.ready.entries=.ok ms) :
    w.origin.raftLog.Readable ∧ ms.view=w.origin.raftLog.view ∧
      Numbered ms.dummy.index ms.stored := by
  unfold MemoryStorage.saveHardState at hms
  split at hms
  · exact h.base.persisted rfl h.committed hh hms
  · -- the log does not read the hard state
    obtain ⟨hr,hv,hn⟩ := (h.base.hardState w.ready.hardState).persisted rfl h.committed hh hms
    exact ⟨⟨hr.pos,hr.snap,hr.stable,hr.beyond,hr.dummy⟩,hv,hn⟩

omit [Raftpb] in
/-- A node that starts on what has been saved reads the same log. -/
theorem begun_reads {ms : MemoryStorage} {r : Raft} {l : RaftLog} (hb : r.Begun ms)
    (hn : Numbered ms.dummy.index ms.stored) (hl : l.Readable) (hv : ms.view=l.view) :
    r.raftLog.firstIndex=l.firstIndex ∧ r.raftLog.lastIndex=l.lastIndex ∧
      ∀ i, r.raftLog.term i=l.term i := by
  obtain ⟨n,hlog⟩ := hb.log
  have hr : r.raftLog.Readable := by
    have hj := (resume_joined n hn hb.dummy hb.applied hb.committed).readable
    rw [← hlog] at hj
    exact hj
  have hview : r.raftLog.view=l.view := by
    rw [hlog,← hv]
    exact start_view ms n
  refine ⟨?_,?_,fun i => ?_⟩
  · rw [RaftLog.firstIndex_eq_view,RaftLog.firstIndex_eq_view,hview]
  · rw [hr.lastIndex_eq,hl.lastIndex_eq,hview]
  · rw [hr.term_eq,hl.term_eq,hview]

/-- Once a Ready has been saved, a node that starts on the storage is where the running one
was when it produced that Ready. -/
theorem run_restart {y z : Session} {acts : List Act} {w : Work} (hx : x.Start)
    (hacts : x.Along Fits acts) (hy : x.run acts=.ok y) (hw : y.work=some w)
    (hst : y.stage=.installed) (hz : y.act .append=.ok z) {c : Config} {draws : List Nat}
    (hc : c.storage=z.raftLog.storage) (hvalid : c.validate≠none)
    (happlied : c.applied=0 ∨ c.storage.dummy.index≤c.applied ∧
      c.applied≤w.origin.raftLog.committed) :
    ∃ r, Raft.newRaft c draws=.ok r ∧ r.term=w.origin.term ∧ r.vote=w.origin.vote ∧
      r.raftLog.committed=w.origin.raftLog.committed ∧
      r.raftLog.firstIndex=w.origin.raftLog.firstIndex ∧
      r.raftLog.lastIndex=w.origin.raftLog.lastIndex ∧
      ∀ i, r.raftLog.term i=w.origin.raftLog.term i := by
  have hd := hx.durable.run hacts hy
  have hd' := hd.does (a := .append) trivial (act_does hz)
  have hh := hd.held w hw
  obtain ⟨ms,hms,rfl⟩ : ∃ ms, y.raftLog.storage.append w.ready.entries=.ok ms ∧
      y.write ms .stored=z := by
    simp only [act,hw,hst] at hz
    obtain ⟨ms,hms,hz⟩ := bind_eq_ok.mp hz
    cases hz
    exact ⟨ms,hms,rfl⟩
  change c.storage=ms at hc
  have hloaded : ms.loaded=w.origin.hardState := (hd'.held w hw).loaded nofun
  rw [hh.installed hst] at hms
  obtain ⟨hread,hview,hn⟩ := hh.persisted (hd.handout w hw) hms
  -- the hard state fits the stored entries
  have hlow : ms.dummy.index≤w.origin.raftLog.committed := by
    have hb := hd'.sane.base
    have hp := log_pending (x := y.write ms .stored) hw
    have hand := hb.hand _ hp
    have hbase : ms.dummy.index≤(y.write ms .stored).log.reach := hb.base
    rw [reach_of_stored hp rfl] at hbase
    exact hbase.trans (max_le hand.settled hand.cursor)
  have hhigh : w.origin.raftLog.committed ≤ ms.lastIndex := by
    rw [← ms.view_lastIndex,hview,← hread.lastIndex_eq]
    exact hh.committed
  have hcommit : ms.loaded.commit=w.origin.raftLog.committed := congrArg HardState.commit hloaded
  subst hc
  rw [← hcommit] at hlow hhigh happlied
  obtain ⟨r,hr⟩ := Raft.newRaft_ok draws hvalid hd'.accepted hlow hhigh happlied
  have hb := Raft.newRaft_begun hr
  have hhard : r.hardState=w.origin.hardState := hb.hardState.trans hloaded
  obtain ⟨hfirst,hlast,hterm⟩ := begun_reads hb hn hread hview
  exact ⟨r,hr,congrArg HardState.term hhard,congrArg HardState.vote hhard,
    congrArg HardState.commit hhard,hfirst,hlast,hterm⟩

end

section

local instance : Raftpb := Wire.small

/-- A node that has saved nothing yet. -/
def blankConfig : Config where
  id := 1
  electionTick := 10
  heartbeatTick := 1
  storage := .newMemoryStorage
  maxInflightMsgs := 256

/-- Two peers are bootstrapped, and a leader appends while the first Ready is saved. -/
def appended : List Act :=
  [.ready,.step {
    type := .msgApp
    toId := 1
    fromId := 2
    term := 2
    index := 2
    logTerm := 1
    entries := [{ (default : Entry) with term := 2, index := 3 }]
    commit := 2 },.save]

theorem run_restart_booted : ∃ rn rn' y z w r,
    RawNode.newRawNode blankConfig []=.ok rn ∧
    rn.bootstrap (fun _ => []) [⟨1,[]⟩,⟨2,[]⟩]=.ok (.ok rn') ∧
    ({ rn := rn' } : Session).run appended=.ok y ∧ y.act .append=.ok z ∧ y.work=some w ∧
    Raft.newRaft { blankConfig with storage := z.raftLog.storage } []=.ok r ∧
    r.term=w.origin.term ∧ r.vote=w.origin.vote ∧
    r.raftLog.committed=w.origin.raftLog.committed ∧
    r.raftLog.firstIndex=w.origin.raftLog.firstIndex ∧
    r.raftLog.lastIndex=w.origin.raftLog.lastIndex ∧
    ∀ i, r.raftLog.term i=w.origin.raftLog.term i := by
  have hms : MemoryStorage.newMemoryStorage.Kept := ⟨by decide,by decide⟩
  obtain ⟨rn,rn',y,z,w,hnew,hboot,hy,hz,hw,hst,hacts⟩ : ∃ rn rn' y z w,
      RawNode.newRawNode blankConfig []=.ok rn ∧
      rn.bootstrap (fun _ => []) [⟨1,[]⟩,⟨2,[]⟩]=.ok (.ok rn') ∧
      ({ rn := rn' } : Session).run appended=.ok y ∧ y.act .append=.ok z ∧ y.work=some w ∧
      y.stage=.installed ∧ ({ rn := rn' } : Session).Along Fits appended :=
    ⟨_,_,_,_,_,rfl,rfl,rfl,rfl,rfl,rfl,by decide +kernel⟩
  obtain ⟨r,hr⟩ : ∃ r, Raft.newRaft { blankConfig with storage := z.raftLog.storage } []=.ok r ∧ _ :=
    run_restart (.boot hms hnew hboot) hacts hy hw hst hz rfl (Option.some_ne_none _) (.inl rfl)
  exact ⟨rn,rn',y,z,w,r,hnew,hboot,hy,hz,hw,hr⟩

end

end Session

end RaftTesting
