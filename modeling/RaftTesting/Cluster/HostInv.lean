import RaftTesting.Cluster.Fixed
import RaftTesting.Node.HardState

namespace RaftTesting

open Consensus

/-- The entries of the Ready that a host works on. Before they are saved, they fit behind
a part of the storage that the log still reads, and together with it they form a log.
Once saved, they are the end of what is stored. -/
def Ready.Fits (h : Hist Entry) (l : RaftLog) (saved : Bool) (rd : Ready) : Prop :=
  rd.entries≠[] →
    if saved then ∃ e, rd.entries.getLast?=some e ∧ e.index=l.storage.stored.length ∧
      e.term=termAt l.storage.stored l.storage.stored.length
    else ∃ p, Numbered p rd.entries ∧ p≤l.storage.stored.length ∧ l.unstable.offset≤p+1 ∧
      l.unstable.entries≠[] ∧ Coherent h.llog (l.storage.stored.take p++rd.entries)

/-- A node with its storage and the Ready that is worked on. -/
structure Hosted (B : Base Entry) (h : Hist Entry) (i : Nat) (H : Host) : Prop where
  core : CoreInv B h i H.rn.raft.core
  stored : Coherent h.llog H.rn.raft.raftLog.storage.stored
  fits : ∀ rd, H.pending=some rd → rd.Fits h H.rn.raft.raftLog H.saved
  noSnap : ∀ rd, H.pending=some rd → isEmptySnap rd.snapshot=true

structure HostInv (B : Base Entry) (V : JointConfig) (h : Hist Entry) (i : Nat) (H : Host) : Prop
    extends Hosted B h i H where
  voters : H.rn.raft.prs.config.voters=V
  toApply : H.toApply≠[] → 0<H.rn.raft.raftLog.committed

theorem Coherent.grown {i : Nat} {h h' : Hist Entry} (g : h.Grown i h') {l : List Entry}
    (hl : Coherent h.llog l) : Coherent h'.llog l :=
  fun k h0 hk => (hl k h0 hk).grow (g.llog _)

theorem Ready.Fits.grown {i : Nat} {h h' : Hist Entry} (g : h.Grown i h') {l : RaftLog}
    {saved : Bool} {rd : Ready} (hf : rd.Fits h l saved) : rd.Fits h' l saved := by
  intro hne
  have := hf hne
  split_ifs at this ⊢
  · exact this
  · obtain ⟨p,hn,hp,ho,he,hc⟩ := this
    exact ⟨p,hn,hp,ho,he,Coherent.grown g hc⟩

/-- The steps of other hosts leave a host in order. -/
theorem Hosted.frame {B : Base Entry} {h h' : Hist Entry} {i j : Nat} {H : Host}
    (hh : HistInv B h) (hi : Hosted B h i H) (g : h.Grown j h') (hij : i≠j) : Hosted B h' i H where
  core := { hi.core with
    node := hi.core.node.frame hh g hij
    msgs := fun m hm => ⟨(hi.core.msgs m hm).1.mono g,(hi.core.msgs m hm).2⟩ }
  stored := Coherent.grown g hi.stored
  fits := fun rd hrd => (hi.fits rd hrd).grown g
  noSnap := hi.noSnap

section

variable {B : Base Entry} {V : JointConfig} {h h' : Hist Entry} {i : Nat} {H : Host}

/-- The shared history together with what host i has to offer after an event. -/
structure Served (B : Base Entry) (V : JointConfig) (i : Nat) (h h' : Hist Entry) (H : Host)
    (ms : List Message) : Prop where
  grown : h.Grown i h'
  hist : HistInv B h'
  quorate : h'.Quorate B V.QuorumOf
  host : HostInv B V h' i H
  said : ∀ m ∈ ms, m.Ok h' ∧ m.Stamped

/-- A step of the node that does not touch the storage. -/
theorem Hosted.shift (hi : Hosted B h i H) (rn : RawNode)
    (s : Shift i h H.rn.raft.core h' rn.raft.core) (hc : CoreInv B h' i rn.raft.core) :
    Hosted B h' i { H with rn := rn } := by
  have hst : rn.raft.raftLog.storage=H.rn.raft.raftLog.storage := s.storage
  have hoff : rn.raft.raftLog.unstable.offset≤H.rn.raft.raftLog.unstable.offset := s.offset
  have hents : H.rn.raft.raftLog.unstable.entries≠[] → rn.raft.raftLog.unstable.entries≠[] :=
    s.entries
  refine ⟨hc,?_,?_,hi.noSnap⟩
  · exact hst ▸ Coherent.grown s.grown hi.stored
  · intro rd hrd hne
    have := (hi.fits rd hrd).grown s.grown hne
    dsimp only
    split_ifs at this ⊢
    · rwa [hst]
    · obtain ⟨q,hn,hq,ho,he,hc⟩ := this
      rw [hst]
      exact ⟨q,hn,hq,hoff.trans ho,hents he,hc⟩

theorem HostInv.passed (hi : HostInv B V h i H) {r : Raft}
    (p : Passed B V i h H.rn.raft.core h' r.core)
    (hcm : H.rn.raft.raftLog.committed≤r.raftLog.committed) (rn : RawNode) (hr : rn.raft=r) :
    Served B V i h h' { H with rn := rn } [] := by
  subst hr
  refine ⟨p.grown,p.good.hist,p.good.quorate,?_,nofun⟩
  exact ⟨hi.toHosted.shift rn p.toShift p.good.core,p.good.voters,
    fun hne => (hi.toApply hne).trans_le hcm⟩

/-- The unstable entries continue what is stored in front of the offset. -/
theorem RaftLog.Whole.unstable_numbered {l : RaftLog} (hl : l.Whole) :
    Numbered (l.unstable.offset-1) l.unstable.entries := by
  have hd := hl.numbered.drop (l.unstable.offset-1)
  have hpos := hl.pos
  rwa [hl.drop_all (by omega),show l.unstable.offset-1+1-l.unstable.offset=0 by omega,
    List.drop_zero,Nat.zero_add] at hd

/-- Saving a Ready changes the storage but not the log. -/
theorem Hosted.save (hi : Hosted B h i H) {rd : Ready} {ms : MemoryStorage}
    (hrd : H.pending=some rd) (hsv : H.saved=false)
    (hs : rd.save H.rn.raft.raftLog.storage=.ok ms) :
    Hosted B h i { H with
      rn := { H.rn with raft := H.rn.raft.setLog { H.rn.raft.raftLog with storage := ms } }
      saved := true } ∧
    ({ H.rn.raft.raftLog with storage := ms } : RaftLog).all=H.rn.raft.raftLog.all := by
  have hf := hi.fits rd hrd
  have hw : H.rn.raft.raftLog.Whole := hi.core.log
  unfold Ready.save at hs
  rw [hi.noSnap rd hrd,if_pos rfl] at hs
  have hkeep : ({ H.rn.raft.raftLog with storage := ms } : RaftLog).Whole ∧
      ({ H.rn.raft.raftLog with storage := ms } : RaftLog).all=H.rn.raft.raftLog.all ∧
      Coherent h.llog ms.stored ∧
      (rd.entries≠[] → ∃ e, rd.entries.getLast?=some e ∧ e.index=ms.stored.length ∧
        e.term=termAt ms.stored ms.stored.length) := by
    cases he : rd.entries with
    | nil =>
      rw [he] at hs
      cases hs
      exact ⟨hw,rfl,hi.stored,fun hne => absurd rfl hne⟩
    | cons e es =>
      have hfit := hf (he ▸ List.cons_ne_nil e es)
      rw [hsv,he] at hfit
      obtain ⟨p,hn,hp,ho,hne,hc⟩ := hfit
      rw [he] at hs
      obtain ⟨hw',hall⟩ := hw.setStorage hn hp ho hne hs
      obtain ⟨_,hst⟩ := hw.storage.append hn hp hs
      refine ⟨hw',hall,hst ▸ hc,fun _ => ?_⟩
      have hlast := List.getLast?_eq_some_getLast (List.cons_ne_nil e es)
      have hidx : (e::es)[es.length]?=some ((e::es).getLast (List.cons_ne_nil e es)) := by
        rw [List.getLast?_eq_getElem?] at hlast
        exact hlast
      have hlen : ms.stored.length=p+es.length+1 := by
        rw [hst,List.length_append,List.length_take,List.length_cons]
        omega
      refine ⟨_,hlast,?_,?_⟩
      · rw [hlen]
        exact hn _ _ hidx
      · rw [hlen]
        simp only [termAt]
        rw [hst,List.getElem?_append_right (by rw [List.length_take]; omega),List.length_take,
          Nat.min_eq_left hp,Nat.add_sub_cancel_left,hidx]
        rfl
  obtain ⟨hw',hall,hc,hlast⟩ := hkeep
  refine ⟨⟨?_,hc,?_,hi.noSnap⟩,hall⟩
  · have hnode : (H.rn.raft.setLog { H.rn.raft.raftLog with storage := ms }).core.node=
        H.rn.raft.core.node := Node.ext rfl rfl rfl hall rfl rfl rfl
    refine { hi.core with node := hnode ▸ hi.core.node, log := hw', tracks := ?_ }
    intro hl j pr hget
    change pr.Sound ({ H.rn.raft.raftLog with storage := ms } : RaftLog).all.length
    rw [hall]
    exact hi.core.tracks hl j pr hget
  · intro rd' hrd'
    cases Option.some.inj (hrd.symm.trans hrd')
    exact hlast

/-- Confirming a saved Ready leaves the log as it is. -/
theorem Hosted.stabilize (hi : Hosted B h i H) {rd : Ready} (hrd : H.pending=some rd)
    (hsv : H.saved=true) {l : RaftLog} (hw : l.Whole) {L : Nat → List Entry}
    (hc : Coherent L l.all) (hcs : Coherent L l.storage.stored)
    (hst : l.storage=H.rn.raft.raftLog.storage) :
    (rd.stabilize l).Whole ∧ (rd.stabilize l).all=l.all := by
  unfold Ready.stabilize
  rw [hi.noSnap rd hrd]
  simp only [if_true]
  cases he : rd.entries.getLast? with
  | none => exact ⟨hw,rfl⟩
  | some e =>
    have hne : rd.entries≠[] := by
      intro hn
      rw [hn] at he
      cases he
    have hf := hi.fits rd hrd hne
    rw [hsv,if_pos rfl,he] at hf
    obtain ⟨e',he',hidx,hterm⟩ := hf
    cases Option.some.inj he'
    rw [← hst] at hidx hterm
    refine hw.stableTo hidx.symm ?_
    intro _ hle ht
    refine hcs.covers hc hidx.le hle ?_
    rw [ht,hterm,hidx]

variable [Raftpb]

theorem HostInv.nextEnts_pos {l : RaftLog} {ents : List Entry} (hn : l.nextEnts=.ok ents)
    (hne : ents≠[]) : 0<l.committed := by
  unfold RaftLog.nextEnts at hn
  dsimp only at hn
  split at hn
  · omega
  · cases hn
    exact absurd rfl hne

theorem Hosted.ready (hi : Hosted B h i H) {rn : RawNode} {rd : Ready}
    (hr : H.rn.ready=.ok (rn,rd)) : Hosted B h i ⟨rn,some rd,false,rd.committedEntries⟩ ∧
      rd.messages=H.rn.raft.msgs ∧ H.rn.raft.raftLog.nextEnts=.ok rd.committedEntries ∧
      rn.raft.core={ H.rn.raft.core with msgs := [], readStates := rn.raft.readStates } := by
  obtain ⟨rd',hrd,hr⟩ := bind_eq_ok.mp hr
  cases hr
  obtain ⟨ents,hents,hrd⟩ := bind_eq_ok.mp hrd
  cases hrd
  have hw : H.rn.raft.raftLog.Whole := hi.core.log
  refine ⟨⟨?_,hi.stored,?_,?_⟩,rfl,hents,rfl⟩
  · exact { hi.core with node := hi.core.node, msgs := nofun }
  · intro rd hrd hne
    cases Option.some.inj hrd
    change ∃ p, _
    have hpos := hw.pos
    have hoff := hw.offset
    refine ⟨H.rn.raft.raftLog.unstable.offset-1,hw.unstable_numbered,?_,?_,hne,?_⟩
    · change _≤H.rn.raft.raftLog.storage.stored.length
      omega
    · change H.rn.raft.raftLog.unstable.offset≤_
      omega
    · exact hi.core.node.log.coherent
  · intro rd hrd
    cases Option.some.inj hrd
    change isEmptySnap (H.rn.raft.raftLog.unstable.snapshot.getD {})=true
    rw [show H.rn.raft.raftLog.unstable.snapshot=none from hw.snapshot]
    rfl

omit [Raftpb] in
/-- The messages of the application carry no promise. -/
theorem Call.given (h : Hist Entry) (i id : Nat) (c : Call) : Given h i (c.message id) := by
  cases c <;> exact ⟨trivial,nofun,nofun⟩

theorem HostInv.step (hne : V.NonEmpty) (hh : HistInv B h) (hq : h.Quorate B V.QuorumOf)
    (hi : HostInv B V h i H) {m : Message} {r : Raft} {err : Option StepErr} (hm : Given h i m)
    (hr : H.rn.raft.step m=.ok (r,err)) :
    ∃ h', Served B V i h h' { H with rn := { H.rn with raft := r } } [] := by
  have hmoves := Raft.step_moves (S := Given h i) (fun _ => hm) hm.2.1 hr
  obtain ⟨h',p⟩ := hmoves.passed hne (fun _ hm => hm) ⟨hh,hq,hi.core,hi.voters⟩
  exact ⟨h',hi.passed p hmoves.hardLe.committed { H.rn with raft := r } rfl⟩

/-- Applying a configuration entry that leaves the voters as they are. -/
theorem HostInv.applyEntry (hne : V.NonEmpty) (hh : HistInv B h) (hq : h.Quorate B V.QuorumOf)
    (hi : HostInv B V h i H) {H' : Host} {e : Entry} (hpos : 0<H.rn.raft.raftLog.committed)
    (ha : H.applyEntry e=.ok H') (hv : H'.rn.raft.prs.config.voters=V) :
    (∃ h', Served B V i h h' H' []) ∧ H.rn.raft.raftLog.committed≤H'.rn.raft.raftLog.committed := by
  obtain ⟨cc,_,ha⟩ := bind_eq_ok.mp ha
  cases cc with
  | none =>
    cases ha
    exact ⟨⟨h,.refl i h,hh,hq,hi,nofun⟩,le_rfl⟩
  | some cc =>
    obtain ⟨⟨rn,cs⟩,h1,h2⟩ := bind_eq_ok.mp ha
    obtain ⟨⟨r,cs'⟩,hr,h3⟩ := bind_eq_ok.mp h1
    cases h3
    cases h2
    obtain ⟨t,ht,hmoves⟩ := Raft.applyConfChange_moves (S := Given h i) hr
    have hg : Good B V h i H.rn.raft.core := ⟨hh,hq,hi.core,hi.voters⟩
    have hconf : r.prs.config=t.cfg := by
      have hsame : ∀ {c c' : Core}, Core.Moves (Given h i) c c' →
          c'.prs.config=c.prs.config := by
        intro c c' hm
        induction hm with
        | refl => rfl
        | tail _ hm ih => exact (hm.config_eq (fun _ hm => hm.not_snap)).trans ih
      exact hsame hmoves
    have hlen : 0<H.rn.raft.raftLog.all.length := hpos.trans_le hi.core.committed_le
    have s : Sim B V.QuorumOf i h H.rn.raft.core h (H.rn.raft.core.install t) :=
      hi.core.sim_config (Changer.change_kept ht) hlen
    have p := s.passed hg (by
      change t.cfg.voters=V
      rw [← hconf]
      exact hv)
    obtain ⟨h',p'⟩ := hmoves.passed hne (fun _ hm => hm.mono p.grown) p.good
    have hcm : H.rn.raft.raftLog.committed≤r.raftLog.committed := hmoves.hardLe.committed
    exact ⟨⟨h',hi.passed (p.trans p') hcm { H.rn with raft := r } rfl⟩,hcm⟩

omit [Raftpb] in
/-- The log after a Ready is confirmed, once the moves of advance are made. -/
theorem Hosted.advance (hi : Hosted B h i H) {rd : Ready} (rn : RawNode) {c : Core}
    (hrd : H.pending=some rd) (hsv : H.saved=true) (s : Shift i h H.rn.raft.core h' c)
    (hc : CoreInv B h' i c) (hcore : rn.raft.core=c.setLog (rd.stabilize c.raftLog)) :
    Hosted B h' i { H with rn := rn, pending := none, saved := false } ∧
      (rd.stabilize c.raftLog).all=c.raftLog.all := by
  have hcs : Coherent h'.llog c.raftLog.storage.stored :=
    s.storage ▸ Coherent.grown s.grown hi.stored
  obtain ⟨hw,hall⟩ := hi.stabilize hrd hsv hc.log hc.node.log.coherent hcs s.storage
  have hun := rd.stabilize_eq c.raftLog
  have hcm : (rd.stabilize c.raftLog).committed=c.raftLog.committed := by rw [hun]
  have hst : (rd.stabilize c.raftLog).storage=c.raftLog.storage := by rw [hun]
  have hcore' : CoreInv B h' i (c.setLog (rd.stabilize c.raftLog)) := by
    have hnode : (c.setLog (rd.stabilize c.raftLog)).node=c.node :=
      Node.ext rfl rfl rfl hall hcm rfl rfl
    refine { hc with node := hnode ▸ hc.node, log := hw, tracks := ?_ }
    intro hl j pr hget
    change pr.Sound (rd.stabilize c.raftLog).all.length
    rw [hall]
    exact hc.tracks hl j pr hget
  refine ⟨⟨hcore ▸ hcore',?_,nofun,nofun⟩,hall⟩
  change Coherent h'.llog rn.raft.core.raftLog.storage.stored
  rw [hcore]
  change Coherent h'.llog (rd.stabilize c.raftLog).storage.stored
  rw [hst]
  exact hcs

theorem HostInv.advance (hne : V.NonEmpty) (hh : HistInv B h) (hq : h.Quorate B V.QuorumOf)
    (hi : HostInv B V h i H) {rd : Ready} {rn : RawNode} (hrd : H.pending=some rd)
    (hsv : H.saved=true) (hap : H.toApply=[]) (ha : H.rn.advance rd=.ok rn) :
    ∃ h', Served B V i h h' { H with rn := rn, pending := none, saved := false } [] := by
  obtain ⟨r,hr,ha⟩ := bind_eq_ok.mp ha
  cases ha
  obtain ⟨c,hmoves,hcore⟩ := Raft.advance_moves (S := Given h i) hr
  obtain ⟨h',p⟩ := hmoves.passed hne (fun _ hm => hm) ⟨hh,hq,hi.core,hi.voters⟩
  refine ⟨h',p.grown,p.good.hist,p.good.quorate,⟨?_,?_,fun hn => absurd hap hn⟩,nofun⟩
  · exact (hi.toHosted.advance _ hrd hsv p.toShift p.good.core hcore).1
  · change r.core.prs.config.voters=V
    rw [hcore]
    exact p.good.voters

omit [Raftpb] in
theorem Event.given {e : Event} {m : Message} {id : Nat} (hm : ∀ m, e=.recv m → Given h i m)
    (he : e.message id=some m) : Given h i m := by
  cases e with
  | recv m' =>
    cases he
    exact hm m rfl
  | call c =>
    cases he
    exact c.given h i _
  | tick | ready | save | apply | advance => cases he

/-- Whatever happens at a host, host and history stay in order. -/
theorem HostInv.act (hne : V.NonEmpty) (hh : HistInv B h) (hq : h.Quorate B V.QuorumOf)
    (hi : HostInv B V h i H) {H' : Host} {e : Event} {ms : List Message}
    (hm : ∀ m, e=.recv m → Given h i m) (ha : H.act e=.ok (H',ms))
    (hv : H'.rn.raft.prs.config.voters=V) : ∃ h', Served B V i h h' H' ms := by
  cases Host.act_does ha with
  | stay => exact ⟨h,.refl i h,hh,hq,hi,nofun⟩
  | step he hr => exact hi.step hne hh hq (Event.given hm he) hr
  | @tick r hr =>
    have hmoves := Raft.tick_moves (S := Given h i) hr
    obtain ⟨h',p⟩ := hmoves.passed hne (fun _ hm => hm) ⟨hh,hq,hi.core,hi.voters⟩
    exact ⟨h',hi.passed p hmoves.hardLe.committed { H.rn with raft := r } rfl⟩
  | @ready rn rd _ hr =>
    obtain ⟨hi',hms,hents,hcore⟩ := hi.toHosted.ready hr
    have hlog : rn.raft.raftLog=H.rn.raft.raftLog := congrArg Core.raftLog hcore
    have hprs : rn.raft.prs=H.rn.raft.prs := congrArg Core.prs hcore
    refine ⟨h,.refl i h,hh,hq,⟨hi',?_,?_⟩,?_⟩
    · exact (congrArg (fun p => p.config.voters) hprs).trans hi.voters
    · intro hne'
      change 0<rn.raft.raftLog.committed
      rw [hlog]
      exact HostInv.nextEnts_pos hents hne'
    · intro m hm'
      rw [hms] at hm'
      exact hi.core.msgs m hm'
  | save hrd hsv hwrite =>
    exact ⟨h,.refl i h,hh,hq,⟨(hi.toHosted.save hrd hsv hwrite).1,hi.voters,hi.toApply⟩,nofun⟩
  | @apply e es _ hap he =>
    have hpos := hi.toApply (hap ▸ List.cons_ne_nil e es)
    obtain ⟨⟨h',s⟩,hcm⟩ := hi.applyEntry hne hh hq hpos he hv
    refine ⟨h',s.grown,s.hist,s.quorate,?_,nofun⟩
    exact { s.host with toApply := fun _ => hpos.trans_le hcm }
  | advance hrd hsv hap hr => exact hi.advance hne hh hq hrd hsv hap hr

theorem HostInv.act_quiet (hne : V.NonEmpty) (hh : HistInv B h) (hq : h.Quorate B V.QuorumOf)
    (hi : HostInv B V h i H) {e : Event} (hm : ∀ m, e=.recv m → Given h i m) :
    Quiet true (H.act e) := by
  have htame := Good.tame hne ⟨hh,hq,hi.core,hi.voters⟩
  have hstep : ∀ m, Given h i m → Quiet true (H.step m) := fun m hm =>
    ((Raft.step_quiet htame (fun _ => hm) hm.2.1).andThen (fun _ => avoids_ok _)).andThen
      (fun _ => avoids_ok _)
  cases e with
  | recv m => exact (hstep m (hm m rfl)).andThen (fun _ => avoids_ok _)
  | call c => exact (hstep _ (c.given h i _)).andThen (fun _ => avoids_ok _)
  | tick =>
    exact ((Raft.tick_quiet htame).andThen (fun _ => avoids_ok _)).andThen (fun _ => avoids_ok _)
  | ready =>
    simp only [Host.act]
    split
    · exact avoids_ok _
    · refine Quiet.andThen (Quiet.andThen ?_ (fun _ => avoids_ok _)) (fun _ => avoids_ok _)
      exact (RaftLog.nextEnts_quiet _).andThen (fun _ => avoids_ok _)
  | save =>
    simp only [Host.act]
    split
    · exact (MemoryStorage.append_quiet _ _).andThen (fun _ => avoids_ok _)
    · exact avoids_ok _
  | apply =>
    simp only [Host.act]
    split
    · rename_i e _ _ _
      refine Quiet.andThen ((Raft.confChangeOf_quiet e).andThen (fun cc => ?_))
        (fun _ => avoids_ok _)
      cases cc with
      | none => exact avoids_ok _
      | some cc =>
        exact ((Raft.applyConfChange_quiet _ cc).andThen (fun _ => avoids_ok _)).andThen
          (fun _ => avoids_ok _)
    · exact avoids_ok _
  | advance =>
    simp only [Host.act]
    split
    · exact ((Raft.advance_quiet htame).andThen (fun _ => avoids_ok _)).andThen
        (fun _ => avoids_ok _)
    · exact avoids_ok _

end

end RaftTesting
