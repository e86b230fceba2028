import Mathlib.Algebra.BigOperators.Intervals
import Mathlib.Algebra.Order.BigOperators.Group.Finset
import RaftTesting.Node.Campaign
import RaftTesting.Node.Pending
import RaftTesting.Node.Transfer

namespace RaftTesting

open Finset (Ioc)

namespace RaftLog

/-- The payload of the entry at an index, none of an index without one. -/
def payloadAt (l : RaftLog) (i : Nat) : Nat := ((l.entryAt i).map payloadSize).getD 0

/-- The payload of the log past an index. -/
def payloadPast (l : RaftLog) (a : Nat) : Nat := ∑ i∈Ioc a l.lastIndex, l.payloadAt i

variable {l l' : RaftLog} {a b n : Nat} {es : List Entry}

theorem payloadAt_same {i : Nat} (h : l'.entryAt i=l.entryAt i) : l'.payloadAt i=l.payloadAt i := by
  unfold payloadAt
  rw [h]

theorem payloadPast_same (hlast : l'.lastIndex=l.lastIndex)
    (h : ∀ i, a < i → i≤l.lastIndex → l'.entryAt i=l.entryAt i) :
    l'.payloadPast a=l.payloadPast a := by
  unfold payloadPast
  rw [hlast]
  refine Finset.sum_congr rfl (fun i hi => payloadAt_same ?_)
  obtain ⟨hlow,hhigh⟩ := Finset.mem_Ioc.mp hi
  exact h i hlow hhigh

theorem payloadPast_anti (h : a≤b) : l.payloadPast b≤l.payloadPast a :=
  Finset.sum_le_sum_of_subset (Finset.Ioc_subset_Ioc_left h)

/-- Entries that the log has one after the other account for their part of it. -/
theorem payload_numbered (hn : Numbered a es) (hat : ∀ e ∈ es, l.entryAt e.index=some e) :
    ∑ i∈Ioc a (a+es.length), l.payloadAt i=Raft.payloadSum es := by
  induction es generalizing a with
  | nil => simp [Raft.payloadSum]
  | cons e es ih =>
    have hone : ∑ i∈Ioc a (a+1), l.payloadAt i=payloadSize e := by
      have he := hat e List.mem_cons_self
      rw [hn.head] at he
      rw [Nat.Ioc_succ_singleton,Finset.sum_singleton]
      unfold payloadAt
      rw [he]
      rfl
    have hrest := ih hn.tail (fun e' he' => hat e' (List.mem_cons_of_mem e he'))
    have hlen : a+(e::es).length=a+1+es.length := by
      rw [List.length_cons]
      omega
    rw [hlen,← Finset.sum_Ioc_consecutive _ (Nat.le_add_right a 1) (Nat.le_add_right (a+1) _),hone,
      hrest]
    simp [Raft.payloadSum]

/-- Past b the entries up to n count no more than they weigh together. -/
theorem payloadPast_le (hn : Numbered a es) (hat : ∀ e ∈ es, l.entryAt e.index=some e)
    (hb : b≤l.lastIndex) (hle : a+es.length≤l.lastIndex) :
    l.payloadPast (max b a)≤Raft.payloadSum es+l.payloadPast (max b (a+es.length)) := by
  have hlow : max b a ≤ max b (a+es.length) := max_le_max le_rfl (Nat.le_add_right a _)
  have hhigh : max b (a+es.length)≤l.lastIndex := max_le hb hle
  unfold payloadPast
  rw [← Finset.sum_Ioc_consecutive _ hlow hhigh,← payload_numbered hn hat]
  refine Nat.add_le_add_right (Finset.sum_le_sum_of_subset (fun i hi => ?_)) _
  rw [Finset.mem_Ioc] at hi ⊢
  omega

end RaftLog

namespace Raft

/-- What a leader counts as uncommitted is in its log: past b it has entries of its own term
only, and those that are not applied account for the count. -/
structure Own (r : Raft) (b : Nat) : Prop where
  base : b≤r.raftLog.lastIndex
  term : ∀ i e, b < i → i≤r.raftLog.lastIndex → r.raftLog.entryAt i=some e → e.term=r.term
  backed : r.uncommittedSize≤r.raftLog.payloadPast (max b r.raftLog.applied)

/-- Who does not lead counts nothing. -/
structure Backed (r : Raft) : Prop where
  idle : r.state≠.stateLeader → r.uncommittedSize=0
  lead : r.state=.stateLeader → ∃ b, r.Own b

variable {A : List Entry → Prop} {r r' : Raft} {b : Nat} {es : List Entry} {l : RaftLog}

/-- The log reads as before, except for what is applied and gone. -/
theorem Own.of_entryAt (h : r.Own b) (ht : r'.term=r.term)
    (hu : r'.uncommittedSize=r.uncommittedSize)
    (hlast : r'.raftLog.lastIndex=r.raftLog.lastIndex)
    (happ : r'.raftLog.applied=r.raftLog.applied)
    (hat : ∀ i, b < i → i≤r.raftLog.lastIndex →
      r'.raftLog.entryAt i=r.raftLog.entryAt i ∨
        r'.raftLog.entryAt i=none ∧ i≤r.raftLog.applied) : r'.Own b := by
  refine ⟨hlast ▸ h.base,fun i e hi hle he => ?_,?_⟩
  · rw [hlast] at hle
    rw [ht]
    rcases hat i hi hle with heq | ⟨hnone,-⟩
    · exact h.term i e hi hle (heq.symm.trans he)
    · rw [hnone] at he
      cases he
  · have hsame : r'.raftLog.payloadPast (max b r.raftLog.applied)=
        r.raftLog.payloadPast (max b r.raftLog.applied) := by
      refine RaftLog.payloadPast_same hlast (fun i hi hle => ?_)
      rcases hat i (by omega) hle with heq | ⟨-,hgone⟩
      · exact heq
      · omega
    rw [hu,happ,hsame]
    exact h.backed

theorem Own.still (h : r.Own b) (hlead : r.state=.stateLeader) (hs : Still r r') : r'.Own b := by
  obtain ⟨k,hk,-⟩ := hs.raftLog hlead
  refine h.of_entryAt hs.term hs.uncommittedSize ?_ ?_ (fun i _ _ => .inl ?_) <;> rw [hk] <;> rfl

theorem Backed.still (h : r.Backed) (hs : Still r r') : r'.Backed := by
  refine ⟨fun hl => ?_,fun hl => ?_⟩
  · rw [hs.uncommittedSize]
    exact h.idle (fun hlead => hl (hs.lead.mpr hlead))
  · have hlead := hs.lead.mp hl
    obtain ⟨b,hb⟩ := h.lead hlead
    exact ⟨b,hb.still hlead hs⟩

/-- A count of nothing needs no entries. -/
theorem Backed.of_zero (h : r.uncommittedSize=0) : r.Backed := by
  refine ⟨fun _ => h,fun _ => ⟨r.raftLog.lastIndex,le_rfl,fun i e hi hle _ => ?_,?_⟩⟩
  · exact absurd hle (Nat.not_le.mpr hi)
  · rw [h]
    exact Nat.zero_le _

/-- The leader appends: its count grows with its log. -/
theorem Own.grown {x : LogSession} (h : r.Own b) (hf : r.core.Firm x)
    (hlead : r.state=.stateLeader)
    (hl : r.raftLog.append (stampEntries r.term r.raftLog.lastIndex es)=.ok l) :
    (r.grown es l).Own b := by
  obtain ⟨hbelow,habove⟩ := hf.appended hlead hl
  change ∀ i≤r.raftLog.lastIndex, l.entryAt i=r.raftLog.entryAt i at hbelow
  have hnum := stampEntries_numbered r.term r.raftLog.lastIndex es
  have hlen := stampEntries_length r.term r.raftLog.lastIndex es
  have hnew : l.lastIndex=r.raftLog.lastIndex+es.length ∧
      ∀ e ∈ stampEntries r.term r.raftLog.lastIndex es, l.entryAt e.index=some e := by
    by_cases hne : stampEntries r.term r.raftLog.lastIndex es=[]
    · rw [hne] at hl hlen ⊢
      cases hl
      exact ⟨by rw [← hlen,List.length_nil,Nat.add_zero],nofun⟩
    · have hat := (RaftLog.append_entryAt hf.base.unstable hf.base.pos hnum hne hl).2
      refine ⟨hlen ▸ RaftLog.append_lastIndex hnum hne hl,fun e he => ?_⟩
      obtain ⟨k,hk⟩ := List.mem_iff_getElem?.mp he
      rw [hnum k e hk,hat _ (by omega),← hk]
      congr 1
      omega
  obtain ⟨hlast,hat⟩ := hnew
  have happ : l.applied=r.raftLog.applied := by rw [RaftLog.append_spec hl]
  refine ⟨?_,fun i e hi _ he => ?_,?_⟩
  · have hbase := h.base
    change b≤l.lastIndex
    omega
  · change l.entryAt i=some e at he
    by_cases hi' : i≤r.raftLog.lastIndex
    · rw [hbelow i hi'] at he
      exact h.term i e hi hi' he
    · exact (habove i e (Nat.not_le.mp hi') he).1
  · have hle : max b r.raftLog.applied≤r.raftLog.lastIndex := max_le h.base (hf.applied_le hlead)
    have hold : ∑ i∈Ioc (max b r.raftLog.applied) r.raftLog.lastIndex, l.payloadAt i=
        r.raftLog.payloadPast (max b r.raftLog.applied) := by
      refine Finset.sum_congr rfl (fun i hi => RaftLog.payloadAt_same ?_)
      exact hbelow i (Finset.mem_Ioc.mp hi).2
    have hadd := RaftLog.payload_numbered hnum hat
    rw [hlen,payloadSum_stampEntries] at hadd
    change r.uncommittedSize+payloadSum es≤l.payloadPast (max b l.applied)
    rw [happ,RaftLog.payloadPast,hlast,
      ← Finset.sum_Ioc_consecutive _ hle (Nat.le_add_right _ es.length),hold,hadd]
    exact Nat.add_le_add_right h.backed _

theorem Backed.turn {x : LogSession} (h : r.Backed) (hf : r.core.Firm x) (ht : Turn A r r') :
    r'.Backed := by
  cases ht with
  | still hs => exact h.still hs
  | abort hs =>
    have hsame : r.abortLeaderTransfer.Backed := ⟨h.idle,fun hl =>
      (h.lead hl).imp (fun _ hb => ⟨hb.base,hb.term,hb.backed⟩)⟩
    exact hsame.still hs
  | @aim t _ _ _ _ _ hs =>
    have hsame : Backed { r with leadTransferee := t } := ⟨h.idle,fun hl =>
      (h.lead hl).imp (fun _ hb => ⟨hb.base,hb.term,hb.backed⟩)⟩
    exact hsame.still hs
  | fresh hfresh => exact .of_zero hfresh.uncommittedSize
  | @grow es l hlead _ _ hl hs =>
    have hgrown : (r.grown es l).Backed := ⟨fun hl' => absurd hlead hl',fun _ =>
      (h.lead hlead).imp (fun _ hb => hb.grown hf hlead hl)⟩
    exact hgrown.still hs

/-- What has been applied is not counted any more, and what is not has its entries still. -/
theorem Own.applied (h : r.Own b) (hn : Numbered r.raftLog.applied es)
    (hat : ∀ e ∈ es, r.raftLog.entryAt e.index=some e)
    (hle : r.raftLog.applied+es.length≤r.raftLog.lastIndex) :
    ((r.reduceUncommittedSize es).setLog
      { r.raftLog with applied := r.raftLog.applied+es.length }).Own b := by
  refine ⟨h.base,h.term,?_⟩
  have hsplit := RaftLog.payloadPast_le hn hat h.base hle
  have hbacked := h.backed
  change r.uncommittedSize-payloadSum es≤
    r.raftLog.payloadPast (max b (r.raftLog.applied+es.length))
  omega

section

variable [Raftpb]

/-- Nothing without a payload is refused for its size: neither a proposal, nor the entry of a
new leader, nor the one that leaves a joint configuration. -/
structure AdmitsEmpty (r : Raft) : Prop where
  append : ∀ es r', payloadSum es=0 → r.appendEntry es≠.ok (r',false)
  elect : r.becomeLeader≠.error .emptyEntryDropped
  leave : ∀ n, r.advanceApplied n≠.error .refusedAutoLeave
  propose : ∀ m r' err, payloadSum m.entries=0 → r.leaderProp m=.ok (r',some err) →
    r.prs.progress.get? r.id=none ∨ r.leadTransferee≠noNode

/-- The panics that a refused entry causes. -/
def refusal : Panic → Bool
  | .emptyEntryDropped | .refusedAutoLeave => true
  | _ => false

omit [Raftpb] in
theorem appendEntry_accepts (h : payloadSum es=0) : r.appendEntry es≠.ok (r',false) := by
  intro happ
  rcases appendEntry_spec happ with ⟨-,-,-,hpayload,-⟩ | ⟨hb,-⟩
  · omega
  · cases hb

omit [Raftpb] in
/-- Whatever makes appendEntry panic, it is no refusal. -/
theorem appendEntry_avoids (r : Raft) (es : List Entry) : Avoids refusal (r.appendEntry es) := by
  have happend (l : RaftLog) (es : List Entry) : Avoids refusal (l.append es) := by
    unfold RaftLog.append
    split
    · exact avoids_ok _
    · refine Avoids.ite (by simp [refusal]) (Avoids.bind ?_ (fun _ _ => avoids_ok _))
      unfold Unstable.truncateAndAppend
      refine Avoids.ite (avoids_ok _) (Avoids.ite (avoids_ok _)
        (Avoids.bind (Avoids.bind ?_ (fun _ _ => avoids_ok _)) (fun _ _ => avoids_ok _)))
      unfold Unstable.mustCheckOutOfBounds
      split_ifs <;> simp [refusal]
  have hcommit (r : Raft) : Avoids refusal r.maybeCommit := by
    refine Avoids.bind ?_ (fun _ _ => avoids_ok _)
    unfold RaftLog.maybeCommit
    refine Avoids.ite (Avoids.bind ?_ (fun t _ => ?_)) (avoids_ok _)
    · unfold RaftLog.zeroTermOnErrCompacted
      split <;> simp [refusal]
    · exact Avoids.ite (avoids_ok _) (avoids_ok _)
  unfold appendEntry
  dsimp only
  refine Avoids.ite (avoids_ok _) ((happend _ _).bind (fun l _ => ?_))
  split
  · simp [refusal]
  · exact (hcommit _).bind (fun _ _ => avoids_ok _)

omit [Raftpb] in
/-- An entry without a payload goes in, or appendEntry panics by itself. -/
theorem appendEntry_admits {β : Type} {f : Raft × Bool → Except Panic β} {q : Panic}
    (hq : refusal q=true) (hes : payloadSum es=0) (hf : ∀ r', f (r',true)≠.error q) :
    (r.appendEntry es >>= f)≠.error q := by
  intro h
  cases happ : r.appendEntry es with
  | error e =>
    rw [happ] at h
    cases h
    rw [appendEntry_avoids r es _ happ] at hq
    cases hq
  | ok res =>
    obtain ⟨r1,accepted⟩ := res
    rw [happ] at h
    cases accepted with
    | false => exact appendEntry_accepts hes happ
    | true => exact hf r1 h

theorem admitsEmpty (r : Raft) : r.AdmitsEmpty := by
  refine ⟨fun es r' h => appendEntry_accepts h,fun h => ?_,fun n h => ?_,fun m r' err hm h => ?_⟩
  · unfold becomeLeader at h
    split at h
    · cases h
    · dsimp only at h
      split at h
      · cases h
      · refine appendEntry_admits (q := .emptyEntryDropped) rfl rfl (fun r1 h1 => ?_) h
        cases h1
  · unfold advanceApplied at h
    split at h
    · cases h
    · cases happ : r.raftLog.appliedTo n with
      | error e =>
        rw [happ] at h
        unfold RaftLog.appliedTo at happ
        split_ifs at happ
        cases happ
        cases h
      | ok l =>
        rw [happ] at h
        change (if _ then _ else _)=_ at h
        split at h
        · refine appendEntry_admits (q := .refusedAutoLeave) rfl rfl (fun r1 h1 => ?_) h
          cases h1
        · cases h
  · unfold leaderProp at h
    split at h
    · cases h
    · split at h
      · rename_i hnone
        exact .inl (Option.isNone_iff_eq_none.mp hnone)
      · split at h
        · rename_i htransfer
          exact .inr htransfer
        · obtain ⟨⟨r1,es⟩,hscr,h⟩ := bind_eq_ok.mp h
          obtain ⟨⟨r2,accepted⟩,happ,h⟩ := bind_eq_ok.mp h
          have hes : payloadSum es=0 :=
            Nat.le_zero.mp ((screenEntries_payload hscr).trans hm.le)
          cases accepted with
          | false => exact absurd happ (appendEntry_accepts hes)
          | true =>
            obtain ⟨r3,-,h⟩ := bind_eq_ok.mp h
            cases h

end

end Raft

namespace Core

variable {c c' : Core} {es : List Entry}

/-- The entries are the next to be applied and committed, until a snapshot replaces them. -/
def Holds (c : Core) (es : List Entry) : Prop := c.raftLog.unstable.snapshot=none →
  Numbered c.raftLog.applied es ∧
    ∀ e ∈ es, e.index≤c.raftLog.committed ∧ c.raftLog.entryAt e.index=some e

theorem Holds.stays (h : c.Holds es) (hs : c.Stays c')
    (ha : c'.raftLog.applied=c.raftLog.applied) : c'.Holds es := by
  intro hnone
  obtain ⟨hn,hat⟩ := h (hs.vacant hnone)
  refine ⟨ha ▸ hn,fun e he => ?_⟩
  obtain ⟨hle,heq⟩ := hat e he
  exact ⟨hle.trans hs.committed,(hs.same hnone _ hle).trans heq⟩

end Core

namespace Session

open LogSession RaftTesting.Core Raft

variable [Raftpb] {x x' y : Session} {a : Act} {acts : List Act}

/-- What a node is asked to keep and what it counts. -/
structure Counted (x : Session) : Prop where
  firm : x.Firm
  own : x.Sealed
  holds : ∀ w, x.work=some w → x.rn.raft.core.Holds w.ready.committedEntries
  backed : x.rn.raft.Backed

omit [Raftpb] in
/-- The entries of a Ready that is not advanced yet end at its cursor. -/
theorem Counted.cursor {w : Work} (h : x.Counted) (hw : x.work=some w)
    (hnone : x.raftLog.unstable.snapshot=none) (hc : w.ready.appliedCursor≠0) :
    w.ready.appliedCursor=x.raftLog.applied+w.ready.committedEntries.length := by
  obtain ⟨hn,-⟩ := h.holds w hw hnone
  change Numbered x.raftLog.applied w.ready.committedEntries at hn
  have hempty : isEmptySnap w.ready.snapshot=true :=
    source_isEmpty.mp ((h.firm.base.hand _ (log_pending hw)).source_none hnone)
  have hbase : w.ready.base x.raftLog.applied=x.raftLog.applied := by
    unfold Ready.base
    rw [hempty]
    rfl
  have hreach : w.ready.reach x.raftLog.applied=max x.raftLog.applied w.ready.appliedCursor ∧
      (w.ready.appliedCursor=0 ∨ x.raftLog.applied≤w.ready.appliedCursor) := by
    refine Ready.reach_eq (fun hne => absurd hempty (Bool.eq_false_iff.mp hne)) ?_
    rwa [hbase]
  unfold Ready.reach at hreach
  rw [hbase] at hreach
  omega

omit [Raftpb] in
/-- An idle leader has an entry at every index past the applied one. -/
theorem Firm.entryAt_some {i : Nat} (h : x.Firm) (hw : x.work=none)
    (hlead : x.rn.raft.state=.stateLeader) (hi : x.raftLog.applied < i)
    (hle : i≤x.raftLog.lastIndex) : ∃ e, x.raftLog.entryAt i=some e := by
  have hnone := h.leader_vacant hlead
  have hr : x.raftLog.Readable := Core.Firm.readable h (by
    change x.rn.raft.state≠_
    rw [hlead]
    nofun)
  have hbase : x.raftLog.storage.dummy.index≤x.raftLog.applied := by
    have hb := h.base.base
    rw [reach_of_handed (h.base.idle (log_idle.mpr hw))] at hb
    exact hb
  have hview : x.raftLog.view.index=x.raftLog.storage.dummy.index := by
    rw [RaftLog.view_of_stable hnone]
  rw [← hr.entryAt_view (by omega) hle,← Option.isSome_iff_exists,LogView.entryAt_isSome]
  exact ⟨by omega,hr.lastIndex_eq ▸ hle⟩

/-- Advance lowers the count by what has been applied, and moves the unstable entries of the
leader's own term to where storage has them. -/
theorem Counted.advance {w : Work} {rn : RawNode} (h : x.Counted) (hw : x.work=some w)
    (hst : x.stage=.stored) (hadv : x.rn.advance w.ready=.ok rn)
    (hf' : Firm { rn := rn, handed := x.handed }) : rn.raft.Backed := by
  obtain ⟨r',hr',hadv⟩ := bind_eq_ok.mp hadv
  cases hadv
  obtain ⟨r1,h1,hr'⟩ := bind_eq_ok.mp hr'
  cases hr'
  have hmoves : HostMoves (fun m => m.Fine ∧ m.Anchored ∧ m.Ranked) x.rn.raft.core r1.core :=
    Raft.advanceApplied_moves (r := x.rn.raft.reduceUncommittedSize _) h1
  have hf1 := hmoves.firm (fun _ hm => ⟨hm.1,hm.2.1⟩) h.firm
  obtain ⟨hseal,-⟩ := HostMoves.since (fun _ hm => hm) h.firm h.own hmoves
  have hstate : r1.state=x.rn.raft.state := (Raft.advanceApplied_same h1).2
  have hred : (x.rn.raft.reduceUncommittedSize w.ready.committedEntries).Backed := by
    refine ⟨fun hl => ?_,fun hl => ?_⟩
    · change x.rn.raft.uncommittedSize-_=0
      rw [h.backed.idle hl]
      exact Nat.zero_sub _
    · obtain ⟨b,hb⟩ := h.backed.lead hl
      exact ⟨b,hb.base,hb.term,(Nat.sub_le _ _).trans hb.backed⟩
  have hback1 : r1.Backed := by
    rcases advanceApplied_turn h1 with ⟨-,rfl⟩ | ⟨hne,l,hl,ht⟩
    · exact hred
    · have hlog : ((x.rn.raft.reduceUncommittedSize w.ready.committedEntries).setLog l).Backed := by
        refine ⟨hred.idle,fun hlead => ?_⟩
        obtain ⟨b,hb⟩ := h.backed.lead hlead
        have hl' : x.rn.raft.state=.stateLeader := hlead
        have hnone := h.firm.leader_vacant hl'
        obtain ⟨hn,hat⟩ := h.holds w hw hnone
        have hcursor := h.cursor hw hnone hne
        have hle : x.raftLog.committed≤x.raftLog.lastIndex := h.firm.settled (by
          change x.rn.raft.state≠_
          rw [hl']
          nofun)
        rcases RaftLog.appliedTo_spec hl with ⟨hz,-⟩ | ⟨-,-,hhigh,rfl⟩
        · exact absurd hz hne
        · change w.ready.appliedCursor≤x.raftLog.committed at hhigh
          rw [hcursor] at hhigh ⊢
          exact ⟨b,hb.applied hn (fun e he => (hat e he).2) (hhigh.trans hle)⟩
      have hfl : ((x.rn.raft.reduceUncommittedSize w.ready.committedEntries).setLog l).core.Firm
          x.log := HostMove.firm (S := fun m => m.Fine ∧ m.Anchored) (fun _ hm => hm)
            h.firm (.applied hl)
      exact hlog.turn hfl ht
  refine ⟨hback1.idle,fun hlead => ?_⟩
  change r1.state=_ at hlead
  obtain ⟨b,hb⟩ := hback1.lead hlead
  have hnone1 : r1.raftLog.unstable.snapshot=none := hf1.calm.vacant (c := r1.core) (by
    change r1.state≠_
    rw [hlead]
    nofun)
  have hp : x.log.pending=some w.handout := log_pending hw
  have hlast : (w.ready.stabilize r1.raftLog).lastIndex=r1.raftLog.lastIndex :=
    stabilize_last hf1.base hw hst hnone1
  have happ : (w.ready.stabilize r1.raftLog).applied=r1.raftLog.applied := by
    rw [w.ready.stabilize_eq r1.raftLog]
  refine ⟨b,hb.of_entryAt rfl rfl hlast happ (fun i hi hle => ?_)⟩
  cases hat : (w.ready.stabilize r1.raftLog).entryAt i with
  | some e =>
    left
    rcases hseal.stabilized hf1 hlead hp hst hat with he | ⟨j,e',hij,he',hne⟩
    · exact hat.trans he.symm
    · have hj := RaftLog.entryAt_within hnone1 he'
      exact absurd (hb.term j e' (Nat.lt_of_lt_of_le hi hij) hj he') hne
  | none =>
    refine .inr ⟨hat,Nat.not_lt.mp (fun hlt => ?_)⟩
    obtain ⟨e,he⟩ := hf'.entryAt_some (i := i) rfl hlead (happ.symm ▸ hlt) (hlast.symm ▸ hle)
    exact absurd (hat.symm.trans he) nofun

/-- What is held stays held while the raft makes moves. -/
theorem Counted.moves {c : Core} {r : Raft} (h : x.Counted) (hlog : c.raftLog=x.raftLog)
    (hf : c.Firm x.log) (hm : Moves (fun m => m.Fine ∧ m.Anchored) c r.core) :
    ∀ w, x.work=some w → r.core.Holds w.ready.committedEntries := by
  intro w hw
  have hold : c.Holds w.ready.committedEntries := by
    unfold Core.Holds
    rw [hlog]
    exact h.holds w hw
  exact hold.stays (Moves.stays (fun _ hm => hm) hf hm) hm.fixed.2

/-- The application writes to storage: past the applied index the log reads as before. -/
theorem Counted.does_write {ms : MemoryStorage} {stage : Stage} (h : x.Counted) (hfits : x.Fits a)
    (ha : a=.save ∨ a=.append ∨ ∃ i, a=.compact i) (hd : x.Does a (x.write ms stage)) :
    (∀ w, x.work=some w → (x.write ms stage).rn.raft.core.Holds w.ready.committedEntries) ∧
      (x.write ms stage).rn.raft.Backed := by
  refine ⟨fun w hw hnone => ?_,h.backed.idle,fun hlead => ?_⟩
  · obtain ⟨hn,hat⟩ := h.holds w hw hnone
    refine ⟨hn,fun e he => ⟨(hat e he).1,?_⟩⟩
    obtain ⟨k,hk⟩ := List.mem_iff_getElem?.mp he
    have hidx : e.index=x.raftLog.applied+k+1 := hn k e hk
    rcases h.firm.does_entryAt hnone hfits ha hd e.index with heq | ⟨-,hle⟩
    · exact heq.trans (hat e he).2
    · omega
  · have hnone := h.firm.leader_vacant hlead
    obtain ⟨b,hb⟩ := h.backed.lead hlead
    exact ⟨b,hb.of_entryAt rfl rfl (h.firm.sane.does_last hnone ha hd) rfl
      (fun i _ _ => h.firm.does_entryAt hnone hfits ha hd i)⟩

theorem Counted.act (h : x.Counted) (hfits : x.Fits a) (hanch : x.Anchored a) (hrank : x.Ranked a)
    (hact : x.act a=.ok x') : x'.Counted := by
  have hfirm := h.firm.act hfits hanch hact
  have hseal := (h.own.act h.firm hfits hanch hrank hact).1
  have hdoes := act_does hact
  have hdid := hdoes
  suffices hrest : (∀ w, x'.work=some w → x'.rn.raft.core.Holds w.ready.committedEntries) ∧
      x'.rn.raft.Backed from ⟨hfirm,hseal,hrest.1,hrest.2⟩
  cases hdoes with
  | stay => exact ⟨h.holds,h.backed⟩
  | step hr =>
    exact ⟨h.moves rfl h.firm (step_moves (fun _ => ⟨hfits,hanch⟩) hfits.stamped hr),
      h.backed.turn h.firm (step_turn hr)⟩
  | tick hr =>
    exact ⟨h.moves rfl h.firm (tick_moves hr),
      h.backed.turn (A := fun _ => False) h.firm (tick_turn hr)⟩
  | @applyConfChange cc r cs hr =>
    obtain ⟨t,-,hm⟩ := applyConfChange_moves (S := fun m => m.Fine ∧ m.Anchored) hr
    have hf : (x.rn.raft.core.install t).Firm x.log :=
      ⟨h.firm.base,h.firm.old,h.firm.calm,h.firm.tidy,h.firm.settled⟩
    refine ⟨h.moves rfl hf hm,?_⟩
    unfold Raft.applyConfChange at hr
    split at hr
    · cases hr
    · rename_i t' _
      obtain ⟨lt,hs⟩ := switchToConfig_installs hr
      have hsame : Backed { x.rn.raft.installConfig t' with leadTransferee := lt } :=
        ⟨h.backed.idle,fun hl => (h.backed.lead hl).imp
          (fun _ hb => ⟨hb.base,hb.term,hb.backed⟩)⟩
      exact hsame.still hs
  | @ready rd hw hr =>
    refine ⟨fun w hw' hnone => ?_,⟨h.backed.idle,fun hl => (h.backed.lead hl).imp
      (fun _ hb => ⟨hb.base,hb.term,hb.backed⟩)⟩⟩
    cases hw'
    obtain ⟨-,hn,hat⟩ := h.firm.sane.ready_turn hw hr
    have hsnap : rd.snapshot=x.raftLog.unstable.snapshot.getD {} :=
      (h.firm.base.cursor (ready_handout hr)).2.1
    have hbase : rd.base x.raftLog.applied=x.raftLog.applied := by
      unfold Ready.base
      rw [hsnap,show x.raftLog.unstable.snapshot=none from hnone]
      rfl
    rw [hbase] at hn
    exact ⟨hn,fun e he => ⟨(hat e he).2,(hat e he).1⟩⟩
  | save hw hst => exact h.does_write hfits (.inl rfl) hdid
  | append hw hst hms => exact h.does_write hfits (.inr (.inl rfl)) hdid
  | compact hms => exact h.does_write hfits (.inr (.inr ⟨_,rfl⟩)) hdid
  | advance hw hst hadv =>
    exact ⟨fun _ hw' => (nomatch hw'),h.advance hw hst hadv hfirm⟩

theorem Start.counted (hx : x.Start) : x.Counted := by
  refine ⟨hx.firm,hx.sealed,fun w hw => ?_,.of_zero hx.cleared.2⟩
  have hidle : x.work=none := by
    cases hx <;> rfl
  rw [hidle] at hw
  cases hw

/-- The payload of the proposal that an act appends to the log. -/
def accepted (x : Session) : Act → Nat
  | .step m =>
    match x.rn.raft.step m with
    | .ok (r,none) =>
      if m.type=.msgProp ∧ x.raftLog.lastIndex<r.raftLog.lastIndex then payloadSum m.entries else 0
    | _ => 0
  | _ => 0

/-- The payload of the largest proposal that is accepted in a run. -/
def largest (x : Session) : List Act → Nat
  | [] => 0
  | a::acts => max (x.accepted a) (match x.act a with
      | .ok x' => x'.largest acts
      | .error _ => 0)

theorem along_largest {B : Nat} (h : x.largest acts≤B) :
    x.Along (fun x a => x.accepted a≤B) acts := by
  induction acts generalizing x with
  | nil => trivial
  | cons a acts ih =>
    obtain ⟨hnow,hlater⟩ := max_le_iff.mp h
    refine ⟨hnow,?_⟩
    cases hact : x.act a with
    | error e => trivial
    | ok x' =>
      rw [hact] at hlater
      exact ih hlater

end Session

namespace Raft

/-- The count of a node is within its limit, or within what one proposal may have. -/
def Limited (r : Raft) (B : Nat) : Prop := r.uncommittedSize ≤ max r.maxUncommittedSize B

variable {A : List Entry → Prop} {r r' : Raft} {B : Nat}

theorem Limited.still (h : r.Limited B) (hs : Still r r') : r'.Limited B := by
  unfold Limited
  rw [hs.uncommittedSize,hs.maxUncommittedSize]
  exact h

/-- Only a proposal that goes in counts. -/
theorem Limited.turn (h : r.Limited B) (ht : Turn A r r')
    (hA : ∀ es, A es → r.raftLog.lastIndex<r'.raftLog.lastIndex → payloadSum es≤B) :
    r'.Limited B := by
  cases ht with
  | still hs => exact h.still hs
  | abort hs => exact Limited.still (r := r.abortLeaderTransfer) h hs
  | @aim t _ _ _ _ _ hs => exact Limited.still (r := { r with leadTransferee := t }) h hs
  | fresh hf =>
    unfold Limited
    rw [hf.uncommittedSize]
    exact Nat.zero_le _
  | @grow es l hlead hes hroom hl hs =>
    refine Limited.still (r := r.grown es l) ?_ hs
    unfold Limited at h ⊢
    change r.uncommittedSize+payloadSum es ≤ max r.maxUncommittedSize B
    by_cases hz : payloadSum es=0
    · omega
    · have hne : stampEntries r.term r.raftLog.lastIndex es≠[] := by
        intro hnil
        rw [← payloadSum_stampEntries r.term r.raftLog.lastIndex es,hnil] at hz
        exact hz rfl
      have hlast := RaftLog.append_lastIndex (stampEntries_numbered _ _ _) hne hl
      obtain ⟨k,hk,-⟩ := hs.raftLog hlead
      have hgrows : r.raftLog.lastIndex<r'.raftLog.lastIndex := by
        have hlen := List.length_pos_of_ne_nil hne
        have hsame : r'.raftLog.lastIndex=l.lastIndex := by
          rw [hk]
          rfl
        omega
      have hB := hA es hes hgrows
      unfold Full at hroom
      omega

end Raft

namespace Session

open Raft

variable [Raftpb] {x x' y : Session} {a : Act} {acts : List Act}

theorem limited_act {B : Nat} (h : x.rn.raft.Limited B) (hB : x.accepted a≤B)
    (hact : x.act a=.ok x') : x'.rn.raft.Limited B := by
  have hdoes := act_does hact
  cases hdoes with
  | stay => exact h
  | @step m r err hr =>
    refine h.turn (step_turn hr) (fun es hes hgrows => ?_)
    obtain ⟨ht,rfl,hle⟩ := hes
    have hacc : x.accepted (.step m)=payloadSum m.entries := by
      dsimp only [accepted]
      rw [hr]
      exact if_pos ⟨ht,hgrows⟩
    omega
  | tick hr => exact h.turn (A := fun _ => False) (tick_turn hr) (fun _ hes => hes.elim)
  | @applyConfChange cc r cs hr =>
    unfold Raft.applyConfChange at hr
    split at hr
    · cases hr
    · rename_i t _
      obtain ⟨lt,hs⟩ := switchToConfig_installs hr
      exact Limited.still (r := { x.rn.raft.installConfig t with leadTransferee := lt }) h hs
  | ready => exact h
  | save => exact h
  | append => exact h
  | compact => exact h
  | @advance w rn _ _ hadv =>
    obtain ⟨r',hr',hadv⟩ := bind_eq_ok.mp hadv
    cases hadv
    obtain ⟨r1,h1,hr'⟩ := bind_eq_ok.mp hr'
    cases hr'
    have hred : (x.rn.raft.reduceUncommittedSize w.ready.committedEntries).Limited B :=
      (Nat.sub_le _ _).trans h
    suffices hlimited : r1.Limited B from hlimited
    rcases advanceApplied_turn h1 with ⟨-,rfl⟩ | ⟨-,l,-,ht⟩
    · exact hred
    · have hlog : ((x.rn.raft.reduceUncommittedSize w.ready.committedEntries).setLog l).Limited B :=
        hred
      refine hlog.turn ht (fun es hes _ => ?_)
      cases hes
      exact Nat.zero_le _

/-- What a node counts as uncommitted is never more than what its log has past the applied
index, and never more than its limit allows unless a single proposal is larger. Nothing that has
no payload is refused for its size. -/
theorem run_uncommitted (hx : x.Start) (hfits : x.Along Fits acts) (hanch : x.Along Anchored acts)
    (hrank : x.Along Ranked acts) (hy : x.run acts=.ok y) :
    y.rn.raft.uncommittedSize≤y.raftLog.payloadPast y.raftLog.applied ∧
    y.rn.raft.uncommittedSize ≤ max y.rn.raft.maxUncommittedSize (x.largest acts) ∧
    ∀ r : Raft, r.AdmitsEmpty := by
  have hcounted : y.Counted := run_induct (I := Counted)
    (fun _ _ _ h hP hact => h.act hP.1.1 hP.1.2 hP.2 hact) hx.counted
    ((hfits.and hanch).and hrank) hy
  have hlimited : y.rn.raft.Limited (x.largest acts) :=
    run_induct (I := fun x' => x'.rn.raft.Limited (x.largest acts))
      (fun _ _ _ h hP hact => limited_act h hP hact)
      (by unfold Limited; rw [hx.cleared.2]; exact Nat.zero_le _) (along_largest le_rfl) hy
  refine ⟨?_,hlimited,admitsEmpty⟩
  by_cases hlead : y.rn.raft.state=.stateLeader
  · obtain ⟨b,hb⟩ := hcounted.backed.lead hlead
    exact hb.backed.trans (RaftLog.payloadPast_anti (le_max_right _ _))
  · rw [hcounted.backed.idle hlead]
    exact Nat.zero_le _

end Session

namespace Session

section

local instance quotaWire : Raftpb := Wire.small

/-- The limit is 4 bytes. A proposal of 5 is taken while nothing else is uncommitted, one of 1
is refused then, and an empty one is not. -/
def filled : List Act :=
  [.step { type := .msgHup, toId := 1 },.ready,.save,.append,.advance,
  .step (Raft.proposal { (default : Entry) with data := [0,0,0,0,0] }),
  .step (Raft.proposal { (default : Entry) with data := [0] }),
  .step (Raft.proposal default)]

theorem run_uncommitted_filled : ∃ x y : Session, x.Start ∧ x.run filled=.ok y ∧
    y.rn.raft.uncommittedSize=5 ∧ y.raftLog.lastIndex=3 ∧
    y.rn.raft.uncommittedSize≤y.raftLog.payloadPast y.raftLog.applied ∧
    y.rn.raft.uncommittedSize ≤ max 4 (x.largest filled) := by
  obtain ⟨rn,y,hrn,hfits,hanch,hrank,hy,hu,hlast,hmax⟩ : ∃ rn y,
      RawNode.newRawNode Raft.soloConfig []=.ok rn ∧ Along Fits { rn := rn } filled ∧
      Along Anchored { rn := rn } filled ∧ Along Ranked { rn := rn } filled ∧
      run { rn := rn } filled=.ok y ∧ y.rn.raft.uncommittedSize=5 ∧ y.raftLog.lastIndex=3 ∧
      y.rn.raft.maxUncommittedSize=4 :=
    ⟨_,_,rfl,by decide +kernel,by decide +kernel,by decide +kernel,rfl,by decide +kernel,
      by decide +kernel,by decide +kernel⟩
  have hx : Start { rn := rn } := .fresh ⟨by decide,by decide⟩ hrn
  obtain ⟨hpast,hlimit,-⟩ := run_uncommitted hx hfits hanch hrank hy
  rw [hmax] at hlimit
  exact ⟨_,y,hx,hy,hu,hlast,hpast,hlimit⟩

end

end Session

end RaftTesting
