import RaftTesting.Node.Delivery
import RaftTesting.Node.Firm
import RaftTesting.Node.Windows

namespace RaftTesting

/-- Entries go on behind the commit index only. -/
theorem RaftLog.append_kept {l l' : RaftLog} {q : Nat} {ents : List Entry}
    (hu : Numbered (l.unstable.offset-1) l.unstable.entries) (hpos : 1≤l.unstable.offset)
    (hn : Numbered q ents) (h : l.append ents=.ok l') {i : Nat} (hi : i≤l.committed) :
    l'.entryAt i=l.entryAt i := by
  by_cases hne : ents=[]
  · subst hne
    cases h
    rfl
  · obtain ⟨-,-,hc,-⟩ := append_cases hu hpos hn hne h
    exact (append_entryAt hu hpos hn hne h).1 i (hi.trans hc)

namespace Core

def Campaigning (c : Core) : Prop := c.state=.statePreCandidate ∨ c.state=.stateCandidate

/-- No entry that is committed and not applied yet changes the configuration. -/
def Clear (c : Core) : Prop := ∀ i e, c.raftLog.applied < i → i≤c.raftLog.committed →
  c.raftLog.entryAt i=some e → e.isConf=false

/-- A node campaigns as a voter, with no change of the configuration ahead of it. -/
structure Poised (c : Core) : Prop where
  voter : ∃ pr, c.prs.progress.get? c.id=some pr ∧ pr.isLearner=false
  clear : c.Clear

/-- What a node has committed stays, and so does its configuration, unless a snapshot has
replaced both. -/
structure Stays (c c' : Core) : Prop where
  vacant : c'.raftLog.unstable.snapshot=none → c.raftLog.unstable.snapshot=none
  committed : c.raftLog.committed≤c'.raftLog.committed
  same : c'.raftLog.unstable.snapshot=none → ∀ i≤c.raftLog.committed,
    c'.raftLog.entryAt i=c.raftLog.entryAt i
  config : c'.raftLog.unstable.snapshot=none → c'.prs.config=c.prs.config

variable {c c' c'' : Core} {x : LogSession}

theorem Campaigning.not_follower (h : c.Campaigning) : c.state≠.stateFollower := by
  rcases h with h | h <;> rw [h] <;> nofun

theorem Campaigning.not_leader (h : c.Campaigning) : c.state≠.stateLeader := by
  rcases h with h | h <;> rw [h] <;> nofun

theorem Stays.refl (c : Core) : c.Stays c := ⟨fun hs => hs,le_rfl,fun _ _ _ => rfl,fun _ => rfl⟩

theorem Stays.trans (h : c.Stays c') (h' : c'.Stays c'') : c.Stays c'' := by
  refine ⟨fun hs => h.vacant (h'.vacant hs),h.committed.trans h'.committed,fun hs i hi => ?_,
    fun hs => (h'.config hs).trans (h.config (h'.vacant hs))⟩
  exact (h'.same hs i (hi.trans h.committed)).trans (h.same (h'.vacant hs) i hi)

/-- Only the cursors of the log have moved. -/
theorem Stays.of_same (hu : c'.raftLog.unstable=c.raftLog.unstable)
    (hst : c'.raftLog.storage=c.raftLog.storage)
    (hc : c.raftLog.committed≤c'.raftLog.committed) (hp : c'.prs.config=c.prs.config) :
    c.Stays c' := by
  refine ⟨fun hs => hu ▸ hs,hc,fun _ i _ => ?_,fun _ => hp⟩
  unfold RaftLog.entryAt
  rw [hu,hst]

theorem Stays.append {q : Nat} {ents : List Entry} (hf : Firm x c) (hn : Numbered q ents)
    (h : c.raftLog.append ents=.ok c'.raftLog) (hp : c'.prs.config=c.prs.config) : c.Stays c' := by
  have hspec := RaftLog.append_spec h
  refine ⟨fun hs => (append_snapshot h).symm.trans hs,?_,
    fun _ i hi => RaftLog.append_kept hf.base.unstable hf.base.pos hn h hi,fun _ => hp⟩
  rw [hspec]

section

variable [Raftpb] {S : Message → Prop}

/-- A campaign starts only when nothing that is committed and not applied changes the
configuration. -/
theorem HupOk.poised (hup : c.HupOk) (hf : Firm x c) : c.Poised := by
  refine ⟨hup.tracked,fun i e hi hc he => ?_⟩
  obtain ⟨ents,hslice,hnum⟩ := hup.checked
  have hnone := hf.calm.settled hup.settled
  have hr : c.raftLog.Readable := hf.tidy.readable hf.base hnone
  have hlast := hf.hup hup
  obtain ⟨hlow,-⟩ := RaftLog.slice_reads hslice
  rw [c.raftLog.firstIndex_eq_view] at hlow
  rw [hr.slice_eq noLimit hlow (by omega) (by omega),limitSize_noLimit] at hslice
  cases hslice
  have hview := hr.entryAt_view (i := i) (by omega) (by omega)
  rw [he,LogView.entryAt_of_lt (by omega)] at hview
  -- the entry is one of those that hup has read
  have hmem : e∈(c.raftLog.view.entries.drop (c.raftLog.applied+1-c.raftLog.view.index-1)).take
      (c.raftLog.committed+1-(c.raftLog.applied+1)) := by
    refine List.mem_of_getElem? (i := i-c.raftLog.applied-1) ?_
    rw [List.getElem?_take_of_lt (by omega),List.getElem?_drop,← hview]
    congr 1
    omega
  have hzero := hnum.resolve_right (by omega)
  unfold Raft.numOfPendingConf at hzero
  rw [Bool.eq_false_iff]
  exact List.filter_eq_nil_iff.mp (List.length_eq_zero_iff.mp hzero) e hmem

omit [Raftpb] in
/-- Neither the log nor who is a voter has changed. -/
theorem Poised.of_same (h : c.Poised) (hid : c'.id=c.id) (hl : c'.raftLog=c.raftLog)
    (ht : ∀ id, (c'.prs.progress.get? id).map (·.isLearner)=
      (c.prs.progress.get? id).map (·.isLearner)) : c'.Poised := by
  obtain ⟨pr,hget,hlearner⟩ := h.voter
  refine ⟨?_,?_⟩
  · have hmap := ht c.id
    rw [hget,Option.map_some] at hmap
    obtain ⟨pr',hget',heq⟩ := Option.map_eq_some_iff.mp hmap
    exact ⟨pr',hid ▸ hget',heq.trans hlearner⟩
  · unfold Clear
    rw [hl]
    exact h.clear

theorem Move.poised (hf : Firm x c) (h : c.Campaigning → c.Poised) (hm : Move S c c')
    (hc : c'.Campaigning) : c'.Poised := by
  cases hm with
  | send hs =>
    have hframe := hs.frame
    have hcamp : c.Campaigning := by
      unfold Campaigning
      rw [← hframe.state]
      exact hc
    exact (h hcamp).of_same hframe.id hframe.raftLog hframe.tracked
  | follow => exact absurd rfl hc.not_follower
  | preStand _ hup => exact (hup.poised hf).of_same rfl rfl (fun _ => rfl)
  | stand _ hpre =>
    have hpoised : c.Poised := by
      rcases hpre with hpre | hup
      · exact h (.inl hpre)
      · exact hup.poised hf
    exact hpoised.of_same rfl rfl (reset_tracked c (c.term+1))
  | @poll id v =>
    have hsame := (c.prs.recordVote_frame id v).2
    refine (h hc).of_same rfl rfl (fun id' => ?_)
    change ((c.prs.recordVote id v).progress.get? id').map _=_
    rw [hsame]
  | vote => exact (h hc).of_same rfl rfl (fun _ => rfl)
  | elect => exact absurd rfl hc.not_leader
  | append hl | pend hl | commit hl | ack hl => exact absurd hl hc.not_leader
  | accept _ _ _ hfol | stale _ _ _ hfol | beat _ _ _ hfol | skip _ _ _ hfol
  | forward _ _ _ hfol | restore _ _ _ _ hfol => exact absurd hfol hc.not_follower

theorem Move.stays (hS : ∀ m, S m → m.Fine ∧ m.Anchored) (hf : Firm x c) (hm : Move S c c') :
    c.Stays c' := by
  cases hm with
  | send hs =>
    have hframe := hs.frame
    exact .of_same (by rw [hframe.raftLog]) (by rw [hframe.raftLog]) (by rw [hframe.raftLog])
      hframe.config
  | @poll id v => exact .of_same rfl rfl le_rfl (c.prs.recordVote_frame id v).1
  | follow | preStand | stand | elect | pend | ack | vote | stale | skip =>
    exact .of_same rfl rfl le_rfl rfl
  | append _ _ happ => exact .append hf (Raft.stampEntries_numbered _ _ _) happ rfl
  | commit _ hl =>
    rcases RaftLog.maybeCommit_spec hl with ⟨hb,-⟩ | ⟨-,-,-,rfl⟩
    · cases hb
    · exact .of_same (RaftLog.commitTo_unstable _ _) (RaftLog.commitTo_storage _ _)
        (RaftLog.committed_le_commitTo _ _) rfl
  | beat | forward =>
    exact .of_same (RaftLog.commitTo_unstable _ _) (RaftLog.commitTo_storage _ _)
      (RaftLog.committed_le_commitTo _ _) rfl
  | @accept m l last hm ht _ _ _ happ =>
    obtain ⟨hfine,hanch⟩ := hS _ hm
    have hn := hfine.entries ht
    obtain ⟨j,l1,-,h1,rfl⟩ := RaftLog.maybeAppend_within hn (hanch.base ht) (hanch.terms ht) happ
    have happend : c.Stays (c.setLog l1) := .append hf (hn.drop j) h1 rfl
    refine happend.trans ?_
    exact .of_same (RaftLog.commitTo_unstable _ _) (RaftLog.commitTo_storage _ _)
      (RaftLog.committed_le_commitTo _ _) rfl
  | restore prs _ _ _ _ hlt =>
    exact ⟨nofun,hlt.le,nofun,nofun⟩

/-- What the moves of a node leave of its log and its configuration. -/
theorem Moves.stays (hS : ∀ m, S m → m.Fine ∧ m.Anchored) (hf : Firm x c) (hm : Moves S c c') :
    c.Stays c' := by
  induction hm with
  | refl => exact .refl c
  | tail h1 hm ih => exact ih.trans (hm.stays hS (Moves.firm hS hf h1))

theorem Moves.poised (hS : ∀ m, S m → m.Fine ∧ m.Anchored) (hf : Firm x c)
    (h : c.Campaigning → c.Poised) (hm : Moves S c c') : c'.Campaigning → c'.Poised := by
  induction hm with
  | refl => exact h
  | tail h1 hm ih => exact hm.poised (Moves.firm hS hf h1) ih

end

/-- The configuration entries that the application has still to apply are in the log, until a
snapshot replaces it. -/
def Owes (c : Core) (due : List Entry) : Prop := c.raftLog.unstable.snapshot=none → ∀ e ∈ due,
  e.isConf=true ∧ c.raftLog.applied<e.index ∧ e.index≤c.raftLog.committed ∧
    c.raftLog.entryAt e.index=some e

theorem Owes.stays {due : List Entry} (h : c.Owes due) (hs : c.Stays c')
    (ha : c'.raftLog.applied=c.raftLog.applied) : c'.Owes due := by
  intro hnone e he
  obtain ⟨hconf,hlow,hhigh,hat⟩ := h (hs.vacant hnone) e he
  exact ⟨hconf,ha ▸ hlow,hhigh.trans hs.committed,(hs.same hnone _ hhigh).trans hat⟩

/-- Who campaigns owes nothing. -/
theorem Owes.empty {due : List Entry} (h : c.Owes due) (hcalm : c.Calm) (hc : c.Campaigning)
    (hp : c.Poised) : due=[] := by
  have hnone := hcalm.vacant hc.not_follower
  rw [List.eq_nil_iff_forall_not_mem]
  intro e he
  obtain ⟨hconf,hlow,hhigh,hat⟩ := h hnone e he
  rw [hp.clear e.index e hlow hhigh hat] at hconf
  cases hconf

end Core

/-- Without a joint configuration to leave Advance moves the applied index only. -/
theorem Raft.advanceApplied_idle [Raftpb] {r r' : Raft} {n : Nat} (hl : r.state≠.stateLeader)
    (h : r.advanceApplied n=.ok r') :
    ∃ k, r.raftLog.applied≤k ∧ r'=r.setLog { r.raftLog with applied := k } := by
  unfold advanceApplied at h
  split_ifs at h with hz
  · cases h
    exact ⟨r.raftLog.applied,le_rfl,rfl⟩
  · obtain ⟨l,hl',h⟩ := bind_eq_ok.mp h
    dsimp only at h
    rw [if_neg (fun hleave => hl hleave.2.2.2)] at h
    cases h
    rcases RaftLog.appliedTo_spec hl' with ⟨h0,-⟩ | ⟨-,hle,-,rfl⟩
    · exact absurd h0 hz
    · exact ⟨n,hle,rfl⟩

namespace Session

open LogSession RaftTesting.Core

variable [Raftpb] {x x' y z : Session} {a : Act} {acts more : List Act}

/-- The application applies a configuration change only for a configuration entry of its Ready,
once for each. -/
def Dutiful (x : Session) : Act → Prop
  | .applyConfChange _ => x.due≠[]
  | _ => True

/-- What storage holds of the entries in flight of a campaigner is what its log holds there. -/
def Matched (x : Session) : Act → Prop
  | .advance => x.rn.raft.core.Campaigning → ∀ w, x.work=some w → x.stage=.stored →
      x.raftLog.confirms w.ready.entries=true →
      ∀ i<w.handout.offset+w.ready.entries.length, x.raftLog.unstable.offset ≤ i →
        x.raftLog.storage.dummy.index < i → x.raftLog.storage.entryAt i=x.raftLog.unstable.entryAt i
  | _ => True

/-- Index and term identify the entries of the log that an act leaves, and those before them. -/
def Identified (L : Nat → Nat → List Entry) (x : Session) (a : Act) : Prop :=
  match x.act a with
  | .ok x' => x'.raftLog.view.Follows L
  | .error _ => True

instance decidableDutiful (x : Session) : (a : Act) → Decidable (x.Dutiful a)
  | .applyConfChange _ => inferInstanceAs (Decidable (x.due≠[]))
  | .step _ | .tick | .ready | .save | .append | .compact _ | .advance => .isTrue trivial

instance decidableMatched (x : Session) : (a : Act) → Decidable (x.Matched a)
  | .advance =>
    match hw : x.work with
    | none => .isTrue (fun _ w hs => by rw [hw] at hs; cases hs)
    | some w => decidable_of_iff ((x.rn.raft.state=.statePreCandidate ∨
          x.rn.raft.state=.stateCandidate) → x.stage=.stored →
          x.raftLog.confirms w.ready.entries=true →
          ∀ i<w.handout.offset+w.ready.entries.length, x.raftLog.unstable.offset ≤ i →
            x.raftLog.storage.dummy.index < i →
              x.raftLog.storage.entryAt i=x.raftLog.unstable.entryAt i)
        ⟨fun h hc w' hs => by rw [hw] at hs; cases hs; exact h hc,fun h hc => h hc w hw⟩
  | .step _ | .tick | .applyConfChange _ | .ready | .save | .append | .compact _ => .isTrue trivial

instance decidableIdentified (L : Nat → Nat → List Entry) (x : Session) (a : Act) :
    Decidable (x.Identified L a) := by
  unfold Identified
  split <;> infer_instance

section

variable {L : Nat → Nat → List Entry}

omit [Raftpb] in
theorem known_setRaft {r : Raft} (hk : x.log.Known L) (hs : r.raftLog.storage=x.raftLog.storage)
    (hL : r.raftLog.view.Follows L) : (x.setRaft r).log.Known L :=
  have hset := hk.setLog (l := r.raftLog) hs hL
  ⟨hset.view,hset.handed,hset.installed,hset.stored⟩

theorem known_save {w : Work} (hx : x.log.Base) (hk : x.log.Known L) (hw : x.work=some w)
    (hst : x.stage=.handed)
    (hL : (x.log.write ((x.raftLog.storage.saveHardState w.ready.hardState).install
      w.ready.snapshot) .installed).log.view.Follows L) :
    (x.log.write ((x.raftLog.storage.saveHardState w.ready.hardState).install w.ready.snapshot)
      .installed).Known L := by
  have hp := log_pending hw
  unfold MemoryStorage.saveHardState at hL ⊢
  split at hL
  · rename_i hempty
    rw [if_pos hempty]
    exact hk.change hx (.install (S := fun _ _ => True) hp hst) hL
  · rename_i hne
    rw [if_neg hne]
    have hinstall : Change (fun _ _ => True)
        (x.log.write (x.raftLog.storage.setHardState w.ready.hardState) x.stage)
        (fun _ => False) _ := .install hp hst
    exact (hk.hardState w.ready.hardState).change (hx.hardState w.ready.hardState) hinstall hL

/-- What is handed out, and then stored, is known by index and term as the log is. -/
theorem Firm.known (h : x.Firm) (hf : x.Fits a) (hk : x.log.Known L) (hd : x.Does a x')
    (hL : x'.raftLog.view.Follows L) : x'.log.Known L := by
  cases hd with
  | stay => exact hk
  | step hr =>
    have hm := Raft.step_moves (S := Message.Fine) (fun _ => hf) hf.stamped hr
    exact known_setRaft hk hm.fixed.1 hL
  | tick hr => exact known_setRaft hk (Raft.tick_moves (S := Message.Fine) hr).fixed.1 hL
  | applyConfChange hr =>
    obtain ⟨t,-,hm⟩ := Raft.applyConfChange_moves (S := Message.Fine) hr
    exact known_setRaft hk hm.fixed.1 hL
  | ready hw hr => exact hk.change h.base (h.sane.ready (P := fun _ _ => True) hw hr) hL
  | save hw hst => exact known_save h.base hk hw hst hL
  | append hw hst hms =>
    exact hk.change h.base (.store (S := fun _ _ => True) (log_pending hw) hst hms) hL
  | compact hms => exact hk.compact h.base (fun hp => hf.2 (mt log_idle.mpr hp)) hms hL
  | advance => exact ⟨hL,nofun,nofun,nofun⟩

omit [Raftpb] in
theorem Firm.matched (h : x.Firm) (hk : x.log.Known L) (a : Act) : x.Matched a := by
  cases a with
  | advance =>
    intro hc w hw hst hyes
    have hp := log_pending hw
    -- a campaigner has no snapshot to store, so neither has the Ready
    have hown : x.raftLog.unstable.snapshot=w.handout.source := by
      rcases (h.base.hand _ hp).source with ⟨s,hs,-⟩ | hs
      · cases (h.vacant hc.not_follower).symm.trans hs
      · exact hs
    exact hk.agree h.base (Core.Firm.readable h hc.not_follower) hp hst hyes hown
  | step | tick | applyConfChange | ready | save | append | compact => trivial

/-- When index and term identify the entries all along a run, storage and log match. -/
theorem Firm.run_matched (h : x.Firm) (hk : x.log.Known L) (hfits : x.Along Fits acts)
    (hanch : x.Along Anchored acts) (hL : x.Along (Identified L) acts) : x.Along Matched acts := by
  induction acts generalizing x with
  | nil => trivial
  | cons a acts ih =>
    refine ⟨h.matched hk a,?_⟩
    obtain ⟨hfit,hfits⟩ := hfits
    obtain ⟨hanc,hanch⟩ := hanch
    obtain ⟨hid,hL⟩ := hL
    unfold Identified at hid
    cases hact : x.act a with
    | error p => trivial
    | ok x' =>
      rw [hact] at hfits hanch hL hid
      exact ih (h.act hfit hanc hact) (h.known hfit hk (act_does hact) hid) hfits hanch hL

/-- The proviso on the matching of storage and log follows from the one on the messages: an
entry is known by its index and term, wherever it comes from. -/
theorem Start.run_matched (hx : x.Start) (hstart : x.raftLog.view.Follows L)
    (hfits : x.Along Fits acts) (hanch : x.Along Anchored acts)
    (hL : x.Along (Identified L) acts) : x.Along Matched acts := by
  have hidle : x.work=none := by cases hx <;> rfl
  have hnone : ∀ h, x.log.pending≠some h := fun h hp => by
    rw [log_idle.mpr hidle] at hp
    cases hp
  exact hx.firm.run_matched ⟨hstart,fun h hp => absurd hp (hnone h),
    fun h hp => absurd hp (hnone h),fun h hp => absurd hp (hnone h)⟩ hfits hanch hL

end

/-- The state of a node and of what its application has to do. -/
structure Orderly (x : Session) : Prop where
  firm : x.Firm
  owes : x.rn.raft.core.Owes x.due
  poised : x.rn.raft.core.Campaigning → x.rn.raft.core.Poised

omit [Raftpb] in
/-- A node that campaigns owes nothing to its configuration. -/
theorem Orderly.idle (h : x.Orderly) (hc : x.rn.raft.core.Campaigning) : x.due=[] :=
  h.owes.empty h.firm.calm hc (h.poised hc)

theorem Orderly.moves {r : Raft} (h : x.Orderly)
    (hm : Moves (fun m => m.Fine ∧ m.Anchored) x.rn.raft.core r.core) :
    (x.setRaft r).Orderly ∧ x.rn.raft.core.Stays r.core := by
  have hstays := Moves.stays (fun _ hm => hm) h.firm hm
  have hpoised := Moves.poised (fun _ hm => hm) h.firm h.poised hm
  exact ⟨⟨h.firm.moves rfl rfl hm,h.owes.stays hstays hm.fixed.2,hpoised⟩,hstays⟩

/-- A change is applied while a configuration entry is due, which is not during a campaign. -/
theorem Orderly.applyConfChange {cc : ConfChangeV2} {r : Raft} {cs : ConfState} (h : x.Orderly)
    (hdue : x.due≠[]) (hr : x.rn.raft.applyConfChange cc=.ok (r,cs)) :
    ({ x.setRaft r with due := x.due.tail } : Session).Orderly := by
  obtain ⟨t,-,hm⟩ :=
    Raft.applyConfChange_moves (S := fun m => m.Fine ∧ m.Anchored) hr
  have hf : (x.rn.raft.core.install t).Firm x.log :=
    ⟨h.firm.base,h.firm.old,h.firm.calm,h.firm.tidy,h.firm.settled⟩
  have hstays := Moves.stays (fun _ hm => hm) hf hm
  have hpoised := Moves.poised (fun _ hm => hm) hf (fun hc => absurd (h.idle hc) hdue) hm
  have hfirm : (x.setRaft r).Firm := h.firm.moves (c := x.rn.raft.core.install t) rfl rfl hm
  have howes : (x.rn.raft.core.install t).Owes x.due := h.owes
  refine ⟨⟨hfirm.base,hfirm.old,hfirm.calm,hfirm.tidy,hfirm.settled⟩,fun hnone e he => ?_,hpoised⟩
  exact howes.stays hstays hm.fixed.2 hnone e (List.mem_of_mem_tail he)

omit [Raftpb] in
/-- The application writes to storage: past the applied index the log reads as before. -/
theorem Orderly.write {ms : MemoryStorage} {stage : Stage} (h : x.Orderly)
    (hf : (x.write ms stage).Firm)
    (hat : x.raftLog.unstable.snapshot=none → ∀ i, x.raftLog.applied < i →
      (x.write ms stage).raftLog.entryAt i=x.raftLog.entryAt i) : (x.write ms stage).Orderly := by
  refine ⟨hf,fun hnone e he => ?_,fun hc => ⟨(h.poised hc).voter,fun i e hlow hhigh he => ?_⟩⟩
  · obtain ⟨hconf,hlow,hhigh,heq⟩ := h.owes hnone e he
    exact ⟨hconf,hlow,hhigh,(hat hnone e.index hlow).trans heq⟩
  · have hnone := h.firm.vacant hc.not_follower
    exact (h.poised hc).clear i e hlow hhigh ((hat hnone i hlow).symm.trans he)

omit [Raftpb] in
/-- What Advance takes out of the unstable log storage holds as well. -/
theorem Matched.entryAt {w : Work} {l : RaftLog} (hm : x.Matched .advance)
    (hc : x.rn.raft.core.Campaigning) (hbase : (x.log.setLog l).Base) (hw : x.work=some w)
    (hst : x.stage=.stored)
    (hu : l.unstable=x.raftLog.unstable) (hs : l.storage=x.raftLog.storage) {i : Nat} {e : Entry}
    (he : (w.ready.stabilize l).entryAt i=some e) : l.entryAt i=some e := by
  have hh := hbase.hand w.handout (log_pending hw)
  rcases stabilize_entryAt hh.numbered hh.pos he with hat | ⟨hlow,hhigh,hyes,hat⟩
  · exact hat
  · have hd := (MemoryStorage.entryAt_isSome.mp (Option.isSome_of_mem hat)).1
    have hconfirms : x.raftLog.confirms w.ready.entries=true := by
      have heq : x.raftLog.confirms w.ready.entries=l.confirms w.ready.entries := by
        unfold RaftLog.confirms
        rw [hu]
      exact heq.trans hyes
    rw [RaftLog.entryAt_of_le hlow,← hat,hs,hu]
    exact (hm hc w hw hst hconfirms i hhigh (hu ▸ hlow) (hs ▸ hd)).symm

theorem Orderly.advance {w : Work} {rn : RawNode} (h : x.Orderly) (hw : x.work=some w)
    (hst : x.stage=.stored) (hm : x.Matched .advance) (hadv : x.rn.advance w.ready=.ok rn)
    (hf : Firm { rn := rn, handed := x.handed }) :
    Orderly { rn := rn, handed := x.handed } ∧
      (x.rn.raft.core.Campaigning → rn.raft.prs.config=x.rn.raft.prs.config) := by
  obtain ⟨r',hr',hadv⟩ := bind_eq_ok.mp hadv
  cases hadv
  obtain ⟨r1,h1,hr'⟩ := bind_eq_ok.mp hr'
  cases hr'
  have hmoves : HostMoves (fun m => m.Fine ∧ m.Anchored) x.rn.raft.core r1.core :=
    Raft.advanceApplied_moves (r := x.rn.raft.reduceUncommittedSize _) h1
  have hbase : (x.log.setLog r1.raftLog).Base := (hmoves.firm (fun _ hm => hm) h.firm).base
  have hstate : r1.state=x.rn.raft.state := (Raft.advanceApplied_same h1).2
  -- a campaigner does not leave a joint configuration
  have hidle : x.rn.raft.core.Campaigning → ∃ k, x.raftLog.applied≤k ∧
      r1=(x.rn.raft.reduceUncommittedSize w.ready.committedEntries).setLog
        { x.raftLog with applied := k } :=
    fun hc => Raft.advanceApplied_idle (r := x.rn.raft.reduceUncommittedSize _) hc.not_leader h1
  refine ⟨⟨hf,fun _ => nofun,fun hc => ?_⟩,fun hc => ?_⟩
  · have hcamp : x.rn.raft.core.Campaigning := by
      change r1.state=_ ∨ r1.state=_ at hc
      rw [hstate] at hc
      exact hc
    obtain ⟨k,hk,rfl⟩ := hidle hcamp
    have hpoised := h.poised hcamp
    refine ⟨hpoised.voter,fun i e hlow hhigh he => ?_⟩
    have hcursors := w.ready.stabilize_eq { x.raftLog with applied := k }
    change (w.ready.stabilize { x.raftLog with applied := k }).applied < i at hlow
    change i≤(w.ready.stabilize { x.raftLog with applied := k }).committed at hhigh
    rw [hcursors] at hlow hhigh
    have hsame := Matched.entryAt (l := { x.raftLog with applied := k }) hm hcamp hbase hw hst
      rfl rfl he
    exact hpoised.clear i e (Nat.lt_of_le_of_lt hk hlow) hhigh hsame
  · obtain ⟨k,-,rfl⟩ := hidle hc
    rfl

theorem Orderly.act (h : x.Orderly) (hfits : x.Fits a) (hanch : x.Anchored a) (hdut : x.Dutiful a)
    (hmat : x.Matched a) (hact : x.act a=.ok x') : x'.Orderly ∧ (x.rn.raft.core.Campaigning →
      x'.rn.raft.state≠.stateFollower → x'.rn.raft.prs.config=x.rn.raft.prs.config) := by
  have hdoes := act_does hact
  have hdid := hdoes
  have hfirm := h.firm.act hfits hanch hact
  have hmoved : ∀ r : Raft, Moves (fun m => m.Fine ∧ m.Anchored) x.rn.raft.core r.core →
      (x.setRaft r).Orderly ∧ (x.rn.raft.core.Campaigning → r.state≠.stateFollower →
        r.prs.config=x.rn.raft.prs.config) := by
    intro r hm
    obtain ⟨hord,hstays⟩ := h.moves hm
    exact ⟨hord,fun _ hs => hstays.config (hord.firm.vacant hs)⟩
  have hwrite : ∀ {ms stage}, (a=.save ∨ a=.append ∨ ∃ i, a=.compact i) →
      x.Does a (x.write ms stage) → x.raftLog.unstable.snapshot=none → ∀ i,
      x.raftLog.applied < i → (x.write ms stage).raftLog.entryAt i=x.raftLog.entryAt i := by
    intro ms stage ha hd hnone i hi
    rcases h.firm.does_entryAt hnone hfits ha hd i with heq | ⟨-,hle⟩
    · exact heq
    · omega
  cases hdoes with
  | stay => exact ⟨h,fun _ _ => rfl⟩
  | step hr => exact hmoved _ (Raft.step_moves (fun _ => ⟨hfits,hanch⟩) hfits.stamped hr)
  | tick hr => exact hmoved _ (Raft.tick_moves hr)
  | applyConfChange hr => exact ⟨h.applyConfChange hdut hr,fun hc => absurd (h.idle hc) hdut⟩
  | @ready rd hw hr =>
    obtain ⟨hsnap,hnumb,hents⟩ := h.firm.sane.ready_turn hw hr
    refine ⟨⟨hfirm,fun _ e he => ?_,fun hc => ⟨(h.poised hc).voter,(h.poised hc).clear⟩⟩,
      fun _ _ => rfl⟩
    obtain ⟨hmem,hconf⟩ := List.mem_filter.mp he
    obtain ⟨hat,hle⟩ := hents e hmem
    obtain ⟨k,hk⟩ := List.mem_iff_getElem?.mp hmem
    have hidx := hnumb k e hk
    have hbase := Ready.le_base hsnap
    refine ⟨hconf,?_,hle,hat⟩
    change x.raftLog.applied<e.index
    omega
  | save hw hst => exact ⟨h.write hfirm (hwrite (.inl rfl) hdid),fun _ _ => rfl⟩
  | append hw hst hms => exact ⟨h.write hfirm (hwrite (.inr (.inl rfl)) hdid),fun _ _ => rfl⟩
  | compact hms => exact ⟨h.write hfirm (hwrite (.inr (.inr ⟨_,rfl⟩)) hdid),fun _ _ => rfl⟩
  | advance hw hst hadv =>
    obtain ⟨hord,hconf⟩ := h.advance hw hst hmat hadv hfirm
    exact ⟨hord,fun hc _ => hconf hc⟩

/-- An act that is made in the course of a campaign. -/
structure During (x : Session) (a : Act) : Prop where
  fits : x.Fits a
  anchored : x.Anchored a
  dutiful : x.Dutiful a
  matched : x.Matched a
  campaigning : x.rn.raft.core.Campaigning

theorem Orderly.campaign (h : y.Orderly) (hmore : y.Along During more) (hz : y.run more=.ok z)
    (hs : z.rn.raft.state≠.stateFollower) : z.rn.raft.prs.config=y.rn.raft.prs.config := by
  induction more generalizing y with
  | nil =>
    cases hz
    rfl
  | cons a more ih =>
    obtain ⟨y1,h1,hz⟩ := bind_eq_ok.mp hz
    obtain ⟨ha,hmore⟩ := hmore
    rw [h1] at hmore
    obtain ⟨hord,hconf⟩ := h.act ha.fits ha.anchored ha.dutiful ha.matched h1
    -- the campaign goes on after this act, or the run ends with it
    have hnext : y1.rn.raft.state≠.stateFollower := by
      cases more with
      | nil =>
        cases hz
        exact hs
      | cons b more => exact hmore.1.campaigning.not_follower
    exact (ih hord hmore hz).trans (hconf ha.campaigning hnext)

/-- A node campaigns as a voter, with no snapshot pending and no configuration entry that is
committed and not applied, and under one configuration until the campaign ends. -/
theorem run_campaign (hx : x.Start) (hfits : x.Along Fits acts) (hanch : x.Along Anchored acts)
    (hdut : x.Along Dutiful acts) (hmat : x.Along Matched acts) (hy : x.run acts=.ok y)
    (hc : y.rn.raft.state=.statePreCandidate ∨ y.rn.raft.state=.stateCandidate) :
    (∃ pr, y.rn.raft.prs.progress.get? y.rn.raft.id=some pr ∧ pr.isLearner=false) ∧
    y.raftLog.unstable.snapshot=none ∧
    (∀ i e, y.raftLog.applied < i → i≤y.raftLog.committed → y.raftLog.entryAt i=some e →
      e.isConf=false) ∧
    ∀ more z, y.Along During more → y.run more=.ok z → z.rn.raft.state≠.stateFollower →
      z.rn.raft.prs.config=y.rn.raft.prs.config := by
  have hstart : x.Orderly := by
    have hfol := hx.follower
    have hidle : x.due=[] := by
      cases hx <;> rfl
    refine ⟨hx.firm,?_,fun hc => absurd hfol hc.not_follower⟩
    rw [hidle]
    exact fun _ => nofun
  have hord : y.Orderly := run_induct (I := Orderly)
    (fun _ _ _ h hP hact => (h.act hP.1.1 hP.1.2 hP.2.1 hP.2.2 hact).1) hstart
    ((hfits.and hanch).and (hdut.and hmat)) hy
  have hcamp : y.rn.raft.core.Campaigning := hc
  obtain ⟨hvoter,hclear⟩ := hord.poised hcamp
  exact ⟨hvoter,hord.firm.vacant hcamp.not_follower,hclear,fun _ _ => hord.campaign⟩

end Session

namespace Session

section

local instance campaignWire : Raftpb := Wire.small

/-- Node 1 learns of a third voter, applies the change and calls an election. -/
def enlarged : List Act :=
  [.step { type := .msgApp, toId := 1, fromId := 2, term := 1, commit := 1, entries :=
    [⟨1,1,.entryConfChange,Wire.marshalConfChange { type := .addNode, nodeID := 3 }⟩] },
  .ready,.save,.append,.applyConfChange { changes := [⟨.addNode,3⟩] },.advance,
  .step { type := .msgHup, toId := 1 }]

/-- The one entry of the log is that of term 1. -/
def enlargedBranch (_ _ : Nat) : List Entry :=
  [⟨1,1,.entryConfChange,Wire.marshalConfChange { type := .addNode, nodeID := 3 }⟩]

theorem run_campaign_enlarged : ∃ x y z, pair=.ok x ∧ x.run enlarged=.ok y ∧
    y.rn.raft.state=.stateCandidate ∧ y.act .tick=.ok z ∧
    (∃ pr, y.rn.raft.prs.progress.get? y.rn.raft.id=some pr ∧ pr.isLearner=false) ∧
    y.raftLog.unstable.snapshot=none ∧ z.rn.raft.prs.config=y.rn.raft.prs.config := by
  obtain ⟨x,y,z,hx,hfits,hanch,hdut,hstart,hL,hy,hc,hz,hs⟩ : ∃ x y z, pair=.ok x ∧
      x.Along Fits enlarged ∧ x.Along Anchored enlarged ∧ x.Along Dutiful enlarged ∧
      x.raftLog.view.Follows enlargedBranch ∧ x.Along (Identified enlargedBranch) enlarged ∧
      x.run enlarged=.ok y ∧ y.rn.raft.state=.stateCandidate ∧
      y.act .tick=.ok z ∧ z.rn.raft.state≠.stateFollower :=
    ⟨_,_,_,rfl,by decide +kernel,by decide +kernel,by decide +kernel,by decide +kernel,
      by decide +kernel,rfl,by decide +kernel,rfl,by decide +kernel⟩
  have hmat := (pair_start hx).run_matched hstart hfits hanch hL
  obtain ⟨hvoter,hnone,-,hconf⟩ := run_campaign (pair_start hx) hfits hanch hdut hmat hy (.inr hc)
  have hduring : y.Along During [.tick] := by
    refine ⟨⟨trivial,trivial,trivial,trivial,.inr hc⟩,?_⟩
    rw [hz]
    trivial
  have hrun : y.run [.tick]=.ok z := bind_eq_ok.mpr ⟨z,hz,rfl⟩
  exact ⟨x,y,z,hx,hy,hc,hz,hvoter,hnone,hconf [.tick] z hduring hrun hs⟩

end

end Session

end RaftTesting
