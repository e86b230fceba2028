import RaftTesting.Cluster.HostInv
import RaftTesting.Cluster.Placed
import RaftTesting.Transition.Turn

namespace RaftTesting

open Consensus

namespace Raft

variable {A : List Entry → Prop} {r r' : Raft}

/-- A leader that decides alone and appends keeps what it has committed. -/
theorem Sole.grown (h : r.Sole) (hw : r.raftLog.Whole)
    (hcm : r.raftLog.committed≤r.raftLog.lastIndex) {es : List Entry} {l : RaftLog}
    (hl : r.raftLog.append (stampEntries r.term r.raftLog.lastIndex es)=.ok l) :
    (r.grown es l).Sole := by
  intro hlead halone _ hfit
  have hlast := hw.lastIndex_eq
  have hn := stampEntries_numbered r.term r.raftLog.lastIndex es
  obtain ⟨hwl,hall,-,-⟩ := hw.append hl hn hlast.le (fun _ => hlast)
  rw [hlast,List.take_length] at hall
  have hlen : r.raftLog.lastIndex≤l.lastIndex := by
    rw [hlast,hwl.lastIndex_eq,hall,List.length_append]
    exact Nat.le_add_right _ _
  have hown := h hlead halone hw (hlen.trans hfit)
  unfold Owns at hown ⊢
  rw [hw.term_eq] at hown
  change RaftLog.zeroTermOnErrCompacted (l.term l.committed)=.ok r.term
  have hsame : l.committed=r.raftLog.committed := by rw [RaftLog.append_spec hl]
  rw [hwl.term_eq,hsame,hall,termAt_append_left (hlast ▸ hcm)]
  exact hown

theorem Sole.turn (h : r.Sole) (hw : r.raftLog.Whole)
    (hcm : r.raftLog.committed≤r.raftLog.lastIndex) (ht : Turn A r r') : r'.Sole := by
  cases ht with
  | still hs => exact h.still hs
  | abort hs => exact Sole.still (r := r.abortLeaderTransfer) h hs
  | @aim t _ _ _ _ _ hs => exact Sole.still (r := { r with leadTransferee := t }) h hs
  | fresh hf => exact hf.sole
  | grow _ _ _ hl hs => exact (h.grown hw hcm hl).still hs

end Raft

/-- A host with the number of entries that its application has applied. The entries that it
is about to apply are the next ones, and its node will know of them. -/
structure HostPlaced [Raftpb] (F : Founding) (B : Base Entry) (h : Hist Entry) (i a : Nat)
    (H : Host) : Prop where
  hosted : Hosted B h i H
  placed : H.rn.raft.core.Placed F a
  trimmed : ∀ m ∈ H.rn.raft.msgs, m.Trimmed F h
  due : H.toApply=(H.rn.raft.raftLog.all.take (a+H.toApply.length)).drop a
  reach : a+H.toApply.length≤H.rn.raft.raftLog.committed
  idle : H.pending=none → H.rn.raft.raftLog.applied=a ∧ H.toApply=[]
  cursor : ∀ rd, H.pending=some rd →
    max H.rn.raft.raftLog.applied rd.appliedCursor=a+H.toApply.length

section

variable [Raftpb] {F : Founding} {B : Base Entry} {h h' : Hist Entry} {i a : Nat} {H H' : Host}

theorem HostPlaced.ordered (hp : HostPlaced F B h i a H) (hh : HistInv B h)
    (hg : h.Governed F.succession B) : Ordered F B h i a H.rn.raft.core :=
  ⟨hh,hg,hp.hosted.core,hp.placed,hp.trimmed⟩

/-- The steps of other hosts leave a host in its place. -/
theorem HostPlaced.frame {j : Nat} (hp : HostPlaced F B h i a H) (hh : HistInv B h)
    (g : h.Grown j h') (hij : i≠j) : HostPlaced F B h' i a H :=
  { hp with
    hosted := hp.hosted.frame hh g hij
    trimmed := fun m hm => (hp.trimmed m hm).grown (hp.hosted.core.msgs m hm).1 g }

/-- A step of the node that leaves the applied cursor alone. -/
theorem HostPlaced.carry (hp : HostPlaced F B h i a H) (rn : RawNode)
    (p : Carried F B i a h H.rn.raft.core h' rn.raft.core)
    (happ : rn.raft.raftLog.applied=H.rn.raft.raftLog.applied)
    (hcm : H.rn.raft.raftLog.committed≤rn.raft.raftLog.committed) :
    HostPlaced F B h' i a { H with rn := rn } := by
  have hcov := hp.hosted.core.committed_covers p.ordered.core p.ordered.hist p.grown hcm
  refine ⟨hp.hosted.shift rn p.toShift p.ordered.core,p.ordered.placed,p.ordered.trimmed,?_,
    hp.reach.trans hcm,?_,?_⟩
  · change H.toApply=(rn.raft.core.raftLog.all.take (a+H.toApply.length)).drop a
    rw [(hcov.mono hp.reach).2]
    exact hp.due
  · intro hnone
    obtain ⟨ha,hnil⟩ := hp.idle hnone
    exact ⟨happ.trans ha,hnil⟩
  · intro rd hrd
    change max rn.raft.raftLog.applied _=_
    rw [happ]
    exact hp.cursor rd hrd

/-- The entries that a Ready hands out are the next ones. -/
theorem RaftLog.Whole.nextEnts_spec {l : RaftLog} (hl : l.Whole) {ents : List Entry}
    (ha : l.applied≤l.committed) (h : l.nextEnts=.ok ents) :
    ents=(l.all.take (l.applied+ents.length)).drop l.applied ∧
      l.applied+ents.length≤l.committed := by
  unfold RaftLog.nextEnts at h
  dsimp only at h
  rw [hl.firstIndex_eq,Nat.max_eq_left (Nat.le_add_left 1 l.applied)] at h
  split at h
  · obtain ⟨res,hs,h⟩ := bind_eq_ok.mp h
    split at h
    · rename_i ents'
      cases h
      obtain ⟨-,-,hpre,-⟩ := hl.slice_spec hs
      rw [Nat.add_sub_cancel,Nat.add_sub_add_right] at hpre
      have hlen := hpre.length_le
      rw [List.length_take] at hlen
      have htake := List.prefix_iff_eq_take.mp hpre
      rw [List.take_take,Nat.min_eq_left (by omega)] at htake
      refine ⟨?_,by omega⟩
      rw [List.drop_take,Nat.add_sub_cancel_left]
      exact htake
    · cases h
  · cases h
    rw [List.length_nil,Nat.add_zero]
    refine ⟨(List.drop_eq_nil_of_le ?_).symm,ha⟩
    exact List.length_take_le _ _

/-- Confirming a Ready moves the applied cursor behind what it has handed out. -/
theorem HostPlaced.cursor_of (hp : HostPlaced F B h i a H) {rd : Ready}
    (ha : H.rn.raft.raftLog.applied=a) (hs : rd.snapshot.index=0)
    (hents : rd.committedEntries=
      (H.rn.raft.raftLog.all.take (a+rd.committedEntries.length)).drop a)
    (hreach : a+rd.committedEntries.length≤H.rn.raft.raftLog.committed) :
    max H.rn.raft.raftLog.applied rd.appliedCursor=a+rd.committedEntries.length := by
  have hlen : a+rd.committedEntries.length≤H.rn.raft.raftLog.all.length :=
    hreach.trans hp.hosted.core.committed_le
  unfold Ready.appliedCursor
  cases hlast : rd.committedEntries.getLast? with
  | none =>
    rw [List.getLast?_eq_none_iff.mp hlast]
    dsimp only [List.length_nil]
    omega
  | some e =>
    have hne : rd.committedEntries≠[] := by
      intro hnil
      rw [hnil] at hlast
      cases hlast
    have hpos := List.length_pos_of_ne_nil hne
    have hget : H.rn.raft.raftLog.all[a+rd.committedEntries.length-1]?=some e := by
      have hat := congrArg (fun l : List Entry => l[rd.committedEntries.length-1]?) hents
      rw [List.getElem?_drop,List.getElem?_take_of_lt (by omega),← Nat.add_sub_assoc hpos] at hat
      rw [← hat,← List.getLast?_eq_getElem?]
      exact hlast
    have hidx := hp.hosted.core.log.numbered _ e hget
    dsimp only
    omega

theorem HostPlaced.ready (hp : HostPlaced F B h i a H) (hnone : H.pending=none) {rn : RawNode}
    {rd : Ready} (hr : H.rn.ready=.ok (rn,rd)) :
    HostPlaced F B h i a ⟨rn,some rd,false,rd.committedEntries⟩ := by
  obtain ⟨hi,-,hents,hcore⟩ := hp.hosted.ready hr
  have hlog : rn.raft.raftLog=H.rn.raft.raftLog := congrArg Core.raftLog hcore
  obtain ⟨ha,-⟩ := hp.idle hnone
  obtain ⟨hdue,hreach⟩ := hp.hosted.core.log.nextEnts_spec
    (hp.placed.applied.trans hp.placed.committed) hents
  change rd.committedEntries=(H.rn.raft.raftLog.all.take (H.rn.raft.raftLog.applied+
    rd.committedEntries.length)).drop H.rn.raft.raftLog.applied at hdue
  change H.rn.raft.raftLog.applied+_≤H.rn.raft.raftLog.committed at hreach
  rw [ha] at hdue hreach
  refine ⟨hi,?_,?_,?_,?_,nofun,?_⟩
  · change rn.raft.core.Placed F a
    rw [hcore]
    exact hp.placed.same rfl rfl rfl rfl rfl rfl rfl
  · intro m hm
    have hnil : rn.raft.msgs=[] := congrArg Core.msgs hcore
    change m ∈ rn.raft.msgs at hm
    rw [hnil] at hm
    cases hm
  · change rd.committedEntries=(rn.raft.raftLog.all.take _).drop a
    rw [hlog]
    exact hdue
  · change _≤rn.raft.raftLog.committed
    rw [hlog]
    exact hreach
  · intro rd' hrd'
    cases Option.some.inj hrd'
    change max rn.raft.raftLog.applied _=_
    rw [hlog]
    refine hp.cursor_of ha ?_ hdue hreach
    exact of_decide_eq_true (hi.noSnap rd rfl)

theorem HostPlaced.save (hp : HostPlaced F B h i a H) {rd : Ready} {ms : MemoryStorage}
    (hrd : H.pending=some rd) (hsv : H.saved=false)
    (hs : rd.save H.rn.raft.raftLog.storage=.ok ms) : HostPlaced F B h i a { H with
      rn := { H.rn with raft := H.rn.raft.setLog { H.rn.raft.raftLog with storage := ms } }
      saved := true } := by
  obtain ⟨hi,hall⟩ := hp.hosted.save hrd hsv hs
  refine ⟨hi,hp.placed.same hall rfl rfl rfl rfl rfl rfl,hp.trimmed,?_,hp.reach,hp.idle,hp.cursor⟩
  change H.toApply=(({ H.rn.raft.raftLog with storage := ms } : RaftLog).all.take _).drop a
  rw [hall]
  exact hp.due

theorem HostPlaced.advance (hp : HostPlaced F B h i a H) (hh : HistInv B h)
    (hg : h.Governed F.succession B) {P : Hist Entry → Core → Prop}
    (hP : ∀ {h c h' c'}, Ordered F B h i a c → Carried F B i a h c h' c' →
      Core.HostMove (fun _ => False) c c' → P h c → P h' c')
    (hsame : ∀ {h c l}, P h c → P h (c.setLog l)) (hc : P h H.rn.raft.core) {rd : Ready}
    {rn : RawNode} (hrd : H.pending=some rd) (hsv : H.saved=true) (hap : H.toApply=[])
    (ha : H.rn.advance rd=.ok rn) : ∃ h', h.Grown i h' ∧ HistInv B h' ∧
      h'.Governed F.succession B ∧
      HostPlaced F B h' i a { H with rn := rn, pending := none, saved := false } ∧
      P h' rn.raft.core := by
  obtain ⟨r,hr,ha⟩ := bind_eq_ok.mp ha
  have hrn : rn.raft=r := congrArg RawNode.raft (Except.ok.inj ha).symm
  subst hrn
  have hlast : rn.raft.raftLog.applied=a := by
    obtain ⟨r1,h1,hr⟩ := bind_eq_ok.mp hr
    have happ := (Raft.advanceApplied_log h1).1
    have hcur := hp.cursor rd hrd
    rw [hap,List.length_nil,Nat.add_zero] at hcur
    rw [← Except.ok.inj hr]
    change (rd.stabilize r1.raftLog).applied=a
    rw [rd.stabilize_eq]
    exact happ.trans hcur
  obtain ⟨c,hmoves,hcore⟩ := Raft.advance_moves (S := fun _ => False) hr
  have hlog : rn.raft.raftLog=rd.stabilize c.raftLog := congrArg Core.raftLog hcore
  have happ : c.raftLog.applied=a := by
    rw [hlog,rd.stabilize_eq] at hlast
    exact hlast
  obtain ⟨h',p,hc'⟩ := Core.chain_carried (S := fun _ => False) (P := P) (fun hm => hm)
    (fun _ hm => hm.elim) (fun _ ho p hm => hP ho p hm) (hp.ordered hh hg) hc hmoves happ.le
  obtain ⟨hi,hall⟩ := hp.hosted.advance _ hrd hsv p.toShift p.ordered.core hcore
  have hcm : (rd.stabilize c.raftLog).committed=c.raftLog.committed := by rw [rd.stabilize_eq]
  have hcur : (rd.stabilize c.raftLog).applied=c.raftLog.applied := by rw [rd.stabilize_eq]
  refine ⟨h',p.grown,p.ordered.hist,p.ordered.governed,⟨hi,?_,?_,?_,?_,?_,nofun⟩,?_⟩
  · change rn.raft.core.Placed F a
    rw [hcore]
    exact p.ordered.placed.same hall hcur hcm rfl rfl rfl rfl
  · intro m hm
    have hmsgs : rn.raft.msgs=c.msgs := congrArg Core.msgs hcore
    exact p.ordered.trimmed m (hmsgs ▸ hm)
  · dsimp only
    rw [hap]
    exact (List.drop_eq_nil_of_le (List.length_take_le _ _)).symm
  · dsimp only
    rw [hap,hlog,hcm]
    exact hp.placed.committed.trans hmoves.hardLe.committed
  · intro _
    exact ⟨hlast,hap⟩
  · rw [hcore]
    exact hsame hc'

/-- The first of the entries that are due is the one behind those that are applied. -/
theorem HostPlaced.due_head (hp : HostPlaced F B h i a H) {e : Entry} {es : List Entry}
    (hap : H.toApply=e::es) : H.rn.raft.raftLog.all[a]?=some e ∧
      es=(H.rn.raft.raftLog.all.take (a+1+es.length)).drop (a+1) ∧
      a+1+es.length≤H.rn.raft.raftLog.committed := by
  have hdue := hp.due
  have hreach := hp.reach
  rw [hap,List.length_cons,← Nat.add_assoc,Nat.add_right_comm] at hdue hreach
  refine ⟨?_,?_,hreach⟩
  · have hat := congrArg (fun l : List Entry => l[0]?) hdue
    rw [List.getElem?_drop,List.getElem?_take_of_lt (by omega)] at hat
    exact hat.symm
  · have htail := congrArg List.tail hdue
    rw [List.tail_drop] at htail
    exact htail

/-- The entry is off the list once its application is in the place behind it. -/
theorem HostPlaced.pop (hp : HostPlaced F B h i a H) {e : Entry} {es : List Entry}
    (hap : H.toApply=e::es) {rn : RawNode} (hi : Hosted B h i { H with rn := rn })
    (hlog : rn.raft.raftLog=H.rn.raft.raftLog) (hmsgs : rn.raft.msgs=H.rn.raft.msgs)
    (hplace : rn.raft.core.Placed F (a+1)) :
    HostPlaced F B h i (a+1) { H with rn := rn, toApply := es } := by
  obtain ⟨-,hes,hreach⟩ := hp.due_head hap
  refine ⟨⟨hi.core,hi.stored,hi.fits,hi.noSnap⟩,hplace,fun m hm => hp.trimmed m (hmsgs ▸ hm),
    ?_,?_,?_,?_⟩
  · change es=(rn.raft.raftLog.all.take _).drop _
    rw [hlog]
    exact hes
  · change _≤rn.raft.raftLog.committed
    rw [hlog]
    exact hreach
  · intro hnone
    have hnil := (hp.idle hnone).2
    rw [hap] at hnil
    cases hnil
  · intro rd hrd
    have hcur := hp.cursor rd hrd
    rw [hap,List.length_cons] at hcur
    change max rn.raft.raftLog.applied _=a+1+es.length
    rw [hlog]
    omega

theorem HostPlaced.apply (hp : HostPlaced F B h i a H) (hh : HistInv B h)
    (hg : h.Governed F.succession B) {P : Hist Entry → Core → Prop}
    (hP : ∀ {h c h' c'}, Ordered F B h i (a+1) c → Carried F B i (a+1) h c h' c' →
      Core.HostMove (fun _ => False) c c' → P h c → P h' c')
    (hsame : ∀ {h c t}, P h c → P h (Core.install c t)) (hc : P h H.rn.raft.core) {e : Entry}
    {es : List Entry} (hap : H.toApply=e::es) (ha : H.applyEntry e=.ok H') :
    ∃ h', h.Grown i h' ∧ HistInv B h' ∧ h'.Governed F.succession B ∧
      HostPlaced F B h' i (a+1) { H' with toApply := es } ∧ P h' H'.rn.raft.core := by
  obtain ⟨hat,-,hreach⟩ := hp.due_head hap
  have hlt : a<H.rn.raft.raftLog.committed := by omega
  have htake : H.rn.raft.raftLog.all.take (a+1)=H.rn.raft.raftLog.all.take a++[e] := by
    rw [List.take_add_one,hat]
    rfl
  obtain ⟨cc,hcc,ha⟩ := bind_eq_ok.mp ha
  cases cc with
  | none =>
    cases ha
    have hno : F.succession.confs [e]=[] := by
      change List.filter Entry.isConf [e]=[]
      rw [List.filter_singleton,Raft.confChangeOf_none hcc]
      rfl
    refine ⟨h,.refl i h,hh,hg,hp.pop hap hp.hosted rfl rfl ?_,hc⟩
    refine hp.placed.next hlt rfl rfl rfl rfl hp.placed.formed ?_
    change F.succession.Path (F.succession.confs (H.rn.raft.raftLog.all.take (a+1))) _
    rw [htake,Succession.confs_append,hno,List.append_nil]
    exact hp.placed.path
  | some cc =>
    obtain ⟨⟨rn,cs⟩,h1,h2⟩ := bind_eq_ok.mp ha
    obtain ⟨⟨r,cs'⟩,hr,h3⟩ := bind_eq_ok.mp h1
    cases h3
    cases h2
    obtain ⟨t,ht,hmoves⟩ := Raft.applyConfChange_moves (S := fun _ => False) hr
    have hyes : F.succession.confs [e]=[e] := by
      change List.filter Entry.isConf [e]=[e]
      rw [List.filter_singleton,Raft.confChangeOf_some hcc]
      rfl
    obtain ⟨hformed,hvoters⟩ := Changer.formed_change
      (c := ⟨H.rn.raft.prs,H.rn.raft.raftLog.lastIndex⟩) hp.placed.formed.formed ht
    have hpath : F.succession.Path
        (F.succession.confs (H.rn.raft.raftLog.all.take (a+1))) t.cfg := by
      rw [htake,Succession.confs_append,hyes]
      exact .step hp.placed.path ⟨⟨H.rn.raft.prs,H.rn.raft.raftLog.lastIndex⟩,cc,t,rfl,
        hp.placed.formed.formed,hcc,ht,rfl⟩
    have hplace : (H.rn.raft.core.install t).Placed F (a+1) :=
      hp.placed.next hlt rfl rfl rfl rfl ⟨hformed,fun _ => hvoters⟩ hpath
    have hlen : 0<H.rn.raft.raftLog.all.length :=
      (Nat.zero_lt_of_lt hlt).trans_le hp.hosted.core.committed_le
    have s : Sim B (fun _ => True) i h H.rn.raft.core h (H.rn.raft.core.install t) :=
      hp.hosted.core.sim_config (Changer.change_kept ht) hlen
    obtain ⟨g,-,hcore⟩ := s.inv hh hp.hosted.core
    have hi : Hosted B h i { H with rn := { H.rn with raft := H.rn.raft.installConfig t } } :=
      hp.hosted.shift { H.rn with raft := H.rn.raft.installConfig t } (s.shift g) hcore
    have hp' := hp.pop hap hi rfl rfl hplace
    have happ : r.raftLog.applied≤a+1 := by
      rw [show r.raftLog.applied=H.rn.raft.raftLog.applied from hmoves.fixed.2]
      exact hp.placed.applied.trans (Nat.le_succ a)
    obtain ⟨h',p,hc'⟩ := Core.chain_carried (S := fun _ => False) (P := P) (a := a+1)
      (fun hm => .move hm) (fun _ hm => hm.elim) (fun _ ho p hm => hP ho p (.move hm))
      (hp'.ordered hh hg) (hsame hc) hmoves happ
    refine ⟨h',p.grown,p.ordered.hist,p.ordered.governed,?_,hc'⟩
    exact hp'.carry { H.rn with raft := r } p hmoves.fixed.2 hmoves.hardLe.committed

end

/-- A Ready takes all read states with it. -/
theorem RawNode.ready_readStates [Raftpb] {rn rn' : RawNode} {rd : Ready}
    (h : rn.ready=.ok (rn',rd)) : rn'.raft.readStates=[] := by
  obtain ⟨rd',hrd,h⟩ := bind_eq_ok.mp h
  obtain ⟨ents,-,hrd⟩ := bind_eq_ok.mp hrd
  cases hrd
  cases h
  change (if rn.raft.readStates.isEmpty then rn.raft.readStates else [])=[]
  split_ifs with he
  · exact List.isEmpty_iff.mp he
  · rfl

/-- What every step of node i keeps: its moves, and what the loop around it does to it. -/
structure Upheld [Raftpb] (F : Founding) (B : Base Entry) (i : Nat)
    (P : Hist Entry → Core → Prop) : Prop where
  move : ∀ {a h c h' c'}, Ordered F B h i a c → Carried F B i a h c h' c' →
    Core.HostMove (fun _ => False) c c' → P h c → P h' c'
  setLog : ∀ {h c l}, P h c → P h (Core.setLog c l)
  install : ∀ {h c t}, P h c → P h (Core.install c t)
  flush : ∀ {h c}, P h c → P h { c with msgs := [], readStates := [] }

/-- A host after an event. -/
structure Acted [Raftpb] (F : Founding) (B : Base Entry) (i : Nat)
    (P : Hist Entry → Core → Prop) (h : Hist Entry) (H : Host) (h' : Hist Entry) (a : Nat)
    (H' : Host) (ms : List Message) : Prop where
  grown : h.Grown i h'
  hist : HistInv B h'
  governed : h'.Governed F.succession B
  placed : HostPlaced F B h' i a H'
  kept : P h' H'.rn.raft.core
  said : ∀ m ∈ ms, m ∈ H.rn.raft.msgs

section

variable [Raftpb] {F : Founding} {B : Base Entry} {h h' : Hist Entry} {i a : Nat} {H H' : Host}
  {P : Hist Entry → Core → Prop}

/-- Whatever happens at a host, it stays in its place. -/
theorem HostPlaced.act (hp : HostPlaced F B h i a H) (hh : HistInv B h)
    (hg : h.Governed F.succession B) {e : Event} {ms : List Message}
    (hP : (∀ id, e.message id=none) → Upheld F B i P) (hc : P h H.rn.raft.core)
    (hst : ∀ m, e.message H.rn.raft.id=some m → m.Stamped)
    (hstep : ∀ m r err, e.message H.rn.raft.id=some m → H.rn.raft.step m=.ok (r,err) →
      ∃ h', Carried F B i a h H.rn.raft.core h' r.core ∧ P h' r.core)
    (ha : H.act e=.ok (H',ms)) : ∃ h' a', Acted F B i P h H h' a' H' ms := by
  cases Host.act_does ha with
  | stay => exact ⟨h,a,.refl i h,hh,hg,hp,hc,nofun⟩
  | @step _ m r err he hr =>
    have hmoves := Raft.step_moves (S := fun _ => True) (fun _ => trivial) (hst m he) hr
    obtain ⟨h',p,hc'⟩ := hstep m r err he hr
    refine ⟨h',a,p.grown,p.ordered.hist,p.ordered.governed,?_,hc',nofun⟩
    exact hp.carry { H.rn with raft := r } p hmoves.fixed.2 hmoves.hardLe.committed
  | @tick r hr =>
    have hmoves := Raft.tick_moves (S := fun _ => False) hr
    obtain ⟨h',p,hc'⟩ := Core.chain_carried (S := fun _ => False) (P := P) (fun hm => .move hm)
      (fun _ hm => hm.elim) (fun _ ho p hm => (hP (fun _ => rfl)).move ho p (.move hm))
      (hp.ordered hh hg) hc hmoves (hmoves.fixed.2.trans_le hp.placed.applied)
    refine ⟨h',a,p.grown,p.ordered.hist,p.ordered.governed,?_,hc',nofun⟩
    exact hp.carry { H.rn with raft := r } p hmoves.fixed.2 hmoves.hardLe.committed
  | @ready rn rd hnone hr =>
    obtain ⟨-,hms,-,hcore⟩ := hp.hosted.ready hr
    refine ⟨h,a,.refl i h,hh,hg,hp.ready hnone hr,?_,fun m hm => hms ▸ hm⟩
    change P h rn.raft.core
    rw [hcore,RawNode.ready_readStates hr]
    exact (hP (fun _ => rfl)).flush hc
  | save hrd hsv hwrite =>
    exact ⟨h,a,.refl i h,hh,hg,hp.save hrd hsv hwrite,(hP (fun _ => rfl)).setLog hc,nofun⟩
  | apply hap he =>
    have hP := hP (fun _ => rfl)
    obtain ⟨h',g,hh',hg',hp',hc'⟩ := hp.apply hh hg hP.move hP.install hc hap he
    exact ⟨h',a+1,g,hh',hg',hp',hc',nofun⟩
  | advance hrd hsv hap hr =>
    have hP := hP (fun _ => rfl)
    obtain ⟨h',g,hh',hg',hp',hc'⟩ := hp.advance hh hg hP.move hP.setLog hc hrd hsv hap hr
    exact ⟨h',a,g,hh',hg',hp',hc',nofun⟩

end

end RaftTesting
