import RaftTesting.Node.Firm
import RaftTesting.Node.Proposal

namespace RaftTesting

/-- The entries of a MsgApp are of its term or of an older one. -/
def Message.Ranked (m : Message) : Prop := m.type=.msgApp → ∀ e ∈ m.entries, e.term ≤ m.term

instance decidableRanked (m : Message) : Decidable m.Ranked :=
  inferInstanceAs (Decidable (m.type=.msgApp → ∀ e ∈ m.entries, e.term ≤ m.term))

namespace Core

open LogSession

/-- The term of an entry is one that the node has reached, but not as a candidate. -/
def Dated (c : Core) (e : Entry) : Prop := e.term≤c.term ∧ (c.state=.stateCandidate → e.term<c.term)

/-- What a leader appends past the pending index is of its own term and changes no
configuration. What was handed out before its election is of an older term. -/
structure Sealed (x : LogSession) (c : Core) : Prop where
  unstable : ∀ e ∈ c.raftLog.unstable.entries, c.Dated e
  handed : ∀ h, x.pending=some h → ∀ e ∈ h.entries, c.Dated e
  own : c.state=.stateLeader → ∀ h, x.pending=some h → ∀ e ∈ h.entries, e.term=c.term →
    c.raftLog.unstable.offset=h.offset ∧ h.entries<+:c.raftLog.unstable.entries
  pending : c.state=.stateLeader → ∀ i e, c.pendingConfIndex < i → c.raftLog.entryAt i=some e →
    e.isConf=false ∧ e.term=c.term

variable {x : LogSession} {c c' : Core}

theorem Dated.mono {e : Entry} (h : c.Dated e) (ht : c.term≤c'.term)
    (hs : c'.state=.stateCandidate → c.state=.stateCandidate ∨ c.term<c'.term) : c'.Dated e := by
  refine ⟨h.1.trans ht,fun hc => ?_⟩
  rcases hs hc with hs | hlt
  · exact Nat.lt_of_lt_of_le (h.2 hs) ht
  · exact Nat.lt_of_le_of_lt h.1 hlt

/-- Neither the log nor what it rests on has changed. -/
theorem Sealed.of_same (h : c.Sealed x) (ht : c'.term=c.term) (hs : c'.state=c.state)
    (hu : c'.raftLog.unstable=c.raftLog.unstable) (hst : c'.raftLog.storage=c.raftLog.storage)
    (hp : c.pendingConfIndex≤c'.pendingConfIndex) : c'.Sealed x := by
  have hdated : ∀ e, c.Dated e → c'.Dated e := fun e he =>
    he.mono ht.ge (fun hc => .inl (hs ▸ hc))
  refine ⟨fun e he => hdated e (h.unstable e (hu ▸ he)),
    fun h' hp' e he => hdated e (h.handed h' hp' e he),fun hl h' hp' e he hterm => ?_,
    fun hl i e hi he => ?_⟩
  · rw [hu]
    exact h.own (hs ▸ hl) h' hp' e he (hterm.trans ht)
  · have hat : c'.raftLog.entryAt i=c.raftLog.entryAt i := by
      unfold RaftLog.entryAt
      rw [hu,hst]
    rw [hat] at he
    rw [ht]
    exact h.pending (hs ▸ hl) i e (Nat.lt_of_le_of_lt hp hi) he

/-- Who is not a leader only has to look at the terms. -/
theorem Sealed.of_not (h : c.Sealed x) (ht : c.term≤c'.term) (hl : c'.state≠.stateLeader)
    (hs : c'.state=.stateCandidate → c.term<c'.term)
    (hu : c'.raftLog.unstable.entries=c.raftLog.unstable.entries) : c'.Sealed x := by
  have hdated : ∀ e, c.Dated e → c'.Dated e := fun e he => he.mono ht (fun hc => .inr (hs hc))
  exact ⟨fun e he => hdated e (h.unstable e (hu ▸ he)),
    fun h' hp' e he => hdated e (h.handed h' hp' e he),fun hl' => absurd hl' hl,
    fun hl' => absurd hl' hl⟩

/-- Where a leader appends: what it had stays, and what is new is of its term. -/
theorem Firm.appended {l : RaftLog} {es : List Entry} (h : Firm x c) (hl : c.state=.stateLeader)
    (happ : c.raftLog.append (Raft.stampEntries c.term c.raftLog.lastIndex es)=.ok l) :
    (∀ i≤c.raftLog.lastIndex, l.entryAt i=c.raftLog.entryAt i) ∧
      ∀ i e, c.raftLog.lastIndex < i → l.entryAt i=some e → e.term=c.term ∧
        ∃ e', es[i-c.raftLog.lastIndex-1]?=some e' ∧ e.isConf=e'.isConf := by
  have hnone := h.calm.vacant (c := c) (by rw [hl]; nofun)
  by_cases hne : Raft.stampEntries c.term c.raftLog.lastIndex es=[]
  · rw [hne] at happ
    cases happ
    refine ⟨fun _ _ => rfl,fun i e hi he => ?_⟩
    have := RaftLog.entryAt_within hnone he
    omega
  · obtain ⟨hbelow,habove⟩ := RaftLog.append_entryAt h.base.unstable h.base.pos
      (Raft.stampEntries_numbered _ _ _) hne happ
    refine ⟨hbelow,fun i e hi he => ?_⟩
    rw [habove i hi] at he
    unfold Raft.stampEntries at he
    rw [List.getElem?_mapIdx] at he
    obtain ⟨e',he',rfl⟩ := Option.map_eq_some_iff.mp he
    exact ⟨rfl,e',he',rfl⟩

theorem Firm.applied_le (h : Firm x c) (hl : c.state=.stateLeader) :
    c.raftLog.applied≤c.raftLog.lastIndex :=
  h.base.applied.trans (h.settled (by rw [hl]; nofun))

/-- A leader appends a batch that has been screened. -/
theorem Sealed.append {l : RaftLog} {es : List Entry} {p : Nat} (h : c.Sealed x) (hf : Firm x c)
    (hl : c.state=.stateLeader)
    (hscr : Screened c.raftLog.lastIndex c.raftLog.applied 0 c.pendingConfIndex es p)
    (happ : c.raftLog.append (Raft.stampEntries c.term c.raftLog.lastIndex es)=.ok l)
    (hc' : c'.state=c.state ∧ c'.term=c.term ∧ c'.raftLog=l ∧ c'.pendingConfIndex=p) :
    c'.Sealed x := by
  obtain ⟨hstate,hterm,hlog,rfl⟩ := hc'
  have happlied := hf.applied_le hl
  by_cases hne : Raft.stampEntries c.term c.raftLog.lastIndex es=[]
  · rw [hne] at happ
    cases happ
    exact h.of_same hterm hstate (by rw [hlog]) (by rw [hlog]) (hscr.le happlied)
  have hdated : ∀ e, c.Dated e → c'.Dated e := fun e he =>
    he.mono hterm.ge (fun hc => .inl (hstate ▸ hc))
  have hnumb := Raft.stampEntries_numbered c.term c.raftLog.lastIndex es
  subst hlog
  refine ⟨fun e he => ?_,fun h' hp e he => hdated e (h.handed h' hp e he),
    fun _ h' hp e he ht => ?_,fun _ i e hi he => ?_⟩
  · rcases RaftLog.append_mem hf.base.unstable hf.base.pos hnumb hne happ he with he | he
    · exact hdated e (h.unstable e he)
    · refine ⟨(Raft.stampEntries_term he).le.trans hterm.ge,fun hc => ?_⟩
      rw [hstate,hl] at hc
      cases hc
  · obtain ⟨hoff,hpre⟩ := h.own hl h' hp e he (ht.trans hterm)
    have hold : c.raftLog.unstable.entries≠[] := by
      intro hnil
      rw [hnil,List.prefix_nil] at hpre
      rw [hpre] at he
      cases he
    obtain ⟨hoff',hpre'⟩ :=
      RaftLog.append_onto hf.base.unstable hf.base.pos hnumb hne happ hold rfl
    exact ⟨hoff'.trans hoff,hpre.trans hpre'⟩
  · obtain ⟨hbelow,habove⟩ := hf.appended hl happ
    rw [hterm]
    by_cases hlast : i≤c.raftLog.lastIndex
    · rw [hbelow i hlast] at he
      exact h.pending hl i e (Nat.lt_of_le_of_lt (hscr.le happlied) hi) he
    · obtain ⟨ht,e',he',hconf⟩ := habove i e (Nat.not_le.mp hlast) he
      refine ⟨?_,ht⟩
      rw [hconf,Bool.eq_false_iff]
      intro hc
      have := hscr.covers happlied he' hc
      omega

/-- The screening of the entry that leaves a joint configuration. -/
theorem screened_leave {last applied p : Nat} (h : p≤applied) :
    Screened last applied 0 p [Raft.autoLeaveEntry] (last+0+1) := .pend h .nil

section

variable [Raftpb] {S : Message → Prop}

theorem Move.sealed (hS : ∀ m, S m → m.Fine ∧ m.Anchored ∧ m.Ranked) (hf : Firm x c)
    (h : c.Sealed x) (hm : Move S c c') : c'.Sealed x := by
  cases hm with
  | send hs =>
    have hframe := hs.frame
    exact h.of_same hframe.term hframe.state (by rw [hframe.raftLog]) (by rw [hframe.raftLog])
      hframe.pendingConfIndex.ge
  | follow ht => exact h.of_not ht nofun nofun rfl
  | preStand => exact h.of_not le_rfl nofun nofun rfl
  | stand => exact h.of_not (Nat.le_succ _) nofun (fun _ => Nat.lt_succ_self _) rfl
  | poll | ack | vote | stale | skip => exact h.of_same rfl rfl rfl rfl le_rfl
  | elect hcand =>
    -- all that the candidate has is older than its term
    refine ⟨fun e he => ⟨(h.unstable e he).1,nofun⟩,fun h' hp e he => ⟨(h.handed h' hp e he).1,nofun⟩,
      fun _ h' hp e he ht => ?_,fun _ i e hi he => ?_⟩
    · have hlt := (h.handed h' hp e he).2 hcand
      exact absurd ht (Nat.ne_of_lt hlt)
    · have hnone := hf.calm.vacant (c := c) (by rw [hcand]; nofun)
      have hle : i≤c.raftLog.lastIndex := RaftLog.entryAt_within hnone he
      exact absurd hi (Nat.not_lt.mpr hle)
  | append hl hscr happ => exact h.append hf hl hscr happ ⟨rfl,rfl,rfl,rfl⟩
  | pend hl hscr => exact h.of_same rfl rfl rfl rfl (hscr.le (hf.applied_le hl))
  | commit _ hl =>
    rcases RaftLog.maybeCommit_spec hl with ⟨hb,-⟩ | ⟨-,-,-,rfl⟩
    · cases hb
    · exact h.of_same rfl rfl (RaftLog.commitTo_unstable _ _) (RaftLog.commitTo_storage _ _) le_rfl
  | beat | forward =>
    exact h.of_same rfl rfl (RaftLog.commitTo_unstable _ _) (RaftLog.commitTo_storage _ _) le_rfl
  | @accept m l last hm ht hterm hfol _ happ =>
    obtain ⟨hfine,hanch,hrank⟩ := hS _ hm
    have hn := hfine.entries ht
    obtain ⟨j,l1,-,h1,rfl⟩ := RaftLog.maybeAppend_within hn (hanch.base ht) (hanch.terms ht) happ
    have hnot : c.state≠.stateLeader ∧ c.state≠.stateCandidate := by
      rw [hfol]
      exact ⟨nofun,nofun⟩
    refine ⟨fun e he => ?_,fun h' hp e he => h.handed h' hp e he,fun hl => absurd hl hnot.1,
      fun hl => absurd hl hnot.1⟩
    change e∈(l1.commitTo (min m.commit last)).1.unstable.entries at he
    rw [RaftLog.commitTo_unstable] at he
    refine ⟨?_,fun hcand => absurd hcand hnot.2⟩
    by_cases hne : m.entries.drop j=[]
    · rw [hne] at h1
      cases h1
      exact (h.unstable e he).1
    · rcases RaftLog.append_mem hf.base.unstable hf.base.pos (hn.drop j) hne h1 he with he | he
      · exact (h.unstable e he).1
      · exact (hrank ht e (List.mem_of_mem_drop he)).trans hterm.le
  | restore prs _ _ _ hfol =>
    have hnot : c.state≠.stateLeader := by
      rw [hfol]
      nofun
    exact ⟨nofun,fun h' hp e he => h.handed h' hp e he,fun hl => absurd hl hnot,
      fun hl => absurd hl hnot⟩

theorem HostMove.sealed (hS : ∀ m, S m → m.Fine ∧ m.Anchored ∧ m.Ranked) (hf : Firm x c)
    (h : c.Sealed x) (hm : HostMove S c c') : c'.Sealed x := by
  cases hm with
  | move hm => exact hm.sealed hS hf h
  | @applied l n happ =>
    have hsame : l.unstable=c.raftLog.unstable ∧ l.storage=c.raftLog.storage := by
      rcases RaftLog.appliedTo_spec happ with ⟨-,rfl⟩ | ⟨-,-,-,rfl⟩ <;> exact ⟨rfl,rfl⟩
    exact h.of_same rfl rfl hsame.1 hsame.2 le_rfl
  | @leave l pr hl hp happ =>
    have hlast : l.lastIndex=c.raftLog.lastIndex+0+1 :=
      RaftLog.append_lastIndex (Raft.stampEntries_numbered _ _ _) (by simp [Raft.stampEntries]) happ
    exact h.append hf hl (screened_leave hp) happ ⟨rfl,rfl,rfl,hlast⟩

end

/-- How the log of a leader has grown since c: entries have been added behind its end, and a
configuration entry only when those before it were applied. -/
structure Grew (c c' : Core) : Prop where
  last : c.raftLog.lastIndex≤c'.raftLog.lastIndex
  applied : c.raftLog.applied≤c'.raftLog.applied
  same : ∀ i≤c.raftLog.lastIndex, c'.raftLog.entryAt i=c.raftLog.entryAt i
  term : ∀ i e, c.raftLog.lastIndex < i → c'.raftLog.entryAt i=some e → e.term=c'.term
  conf : ∀ i e, c.raftLog.lastIndex < i → c'.raftLog.entryAt i=some e → e.isConf=true →
    ∀ j e', j < i → c'.raftLog.entryAt j=some e' → e'.isConf=true → j≤c'.raftLog.applied

/-- A leader that has stepped down does not lead again in the same term. -/
structure Since (c c' : Core) : Prop where
  term : c.term≤c'.term
  stands : c'.term=c.term → c'.state≠.stateCandidate
  grew : c'.term=c.term → c'.state=.stateLeader → c.Grew c'

section

variable {c₀ : Core}

theorem Since.refl (hf : Firm x c) (h : c.state=.stateLeader) : c.Since c := by
  have hnone := hf.calm.vacant (c := c) (by rw [h]; nofun)
  have hlast : ∀ i e, c.raftLog.lastIndex < i → c.raftLog.entryAt i≠some e :=
    fun i e hi he => absurd (RaftLog.entryAt_within hnone he) (Nat.not_le.mpr hi)
  refine ⟨le_rfl,fun _ => by rw [h]; nofun,fun _ _ => ⟨le_rfl,le_rfl,fun _ _ => rfl,?_,?_⟩⟩
  · exact fun i e hi he => absurd he (hlast i e hi)
  · exact fun i e hi he => absurd he (hlast i e hi)

/-- Only the cursors of the log have moved. -/
theorem Since.of_same (h : c₀.Since c) (ht : c'.term=c.term) (hs : c'.state=c.state)
    (hu : c'.raftLog.unstable=c.raftLog.unstable) (hst : c'.raftLog.storage=c.raftLog.storage)
    (ha : c.raftLog.applied≤c'.raftLog.applied) : c₀.Since c' := by
  have hat : ∀ i, c'.raftLog.entryAt i=c.raftLog.entryAt i := by
    intro i
    unfold RaftLog.entryAt
    rw [hu,hst]
  have hlast : c'.raftLog.lastIndex=c.raftLog.lastIndex := by
    unfold RaftLog.lastIndex
    rw [hu,hst]
  refine ⟨ht ▸ h.term,fun he => hs ▸ h.stands (ht ▸ he),fun he hl => ?_⟩
  obtain ⟨hle,happ,hsame,hterm,hconf⟩ := h.grew (ht ▸ he) (hs ▸ hl)
  refine ⟨hlast ▸ hle,happ.trans ha,fun i hi => (hat i).trans (hsame i hi),fun i e hi he => ?_,
    fun i e hi he hc j e' hj he' hc' => ?_⟩
  · rw [hat] at he
    exact (hterm i e hi he).trans ht.symm
  · rw [hat] at he he'
    exact (hconf i e hi he hc j e' hj he' hc').trans ha

theorem Since.of_not (h : c₀.Since c) (ht : c.term≤c'.term) (hl : c'.state≠.stateLeader)
    (hs : c'.state=.stateCandidate → c.term<c'.term) : c₀.Since c' := by
  refine ⟨h.term.trans ht,fun he hc => ?_,fun _ hl' => absurd hl' hl⟩
  have := h.term
  have := hs hc
  omega

/-- A leader appends a batch that has been screened. -/
theorem Since.append {l : RaftLog} {es : List Entry} {p : Nat} (h : c₀.Since c) (hf : Firm x c)
    (hseal : c.Sealed x) (hl : c.state=.stateLeader)
    (hscr : Screened c.raftLog.lastIndex c.raftLog.applied 0 c.pendingConfIndex es p)
    (happ : c.raftLog.append (Raft.stampEntries c.term c.raftLog.lastIndex es)=.ok l)
    (hc' : c'.state=c.state ∧ c'.term=c.term ∧ c'.raftLog=l) : c₀.Since c' := by
  obtain ⟨hstate,hterm,rfl⟩ := hc'
  refine ⟨hterm ▸ h.term,fun he => hstate ▸ h.stands (hterm ▸ he),fun he _ => ?_⟩
  obtain ⟨hle,happlied,hsame,hown,hconf⟩ := h.grew (hterm ▸ he) hl
  obtain ⟨hbelow,habove⟩ := hf.appended hl happ
  have hcur : c'.raftLog.applied=c.raftLog.applied := by rw [RaftLog.append_spec happ]
  refine ⟨hle.trans (append_grows happ),hcur ▸ happlied,
    fun i hi => (hbelow i (hi.trans hle)).trans (hsame i hi),fun i e hi hat => ?_,
    fun i e hi hat hc j e' hj hat' hc' => ?_⟩
  · rw [hterm]
    by_cases hlast : i≤c.raftLog.lastIndex
    · rw [hbelow i hlast] at hat
      exact hown i e hi hat
    · exact (habove i e (Nat.not_le.mp hlast) hat).1
  · rw [hcur]
    by_cases hlast : i≤c.raftLog.lastIndex
    · rw [hbelow i hlast] at hat
      rw [hbelow j (hj.le.trans hlast)] at hat'
      exact hconf i e hi hat hc j e' hj hat' hc'
    · obtain ⟨-,b,hb,hbc⟩ := habove i e (Nat.not_le.mp hlast) hat
      obtain ⟨hp,hbatch⟩ := hscr.settled hb (hbc.symm.trans hc)
      by_cases hold : j≤c.raftLog.lastIndex
      · rw [hbelow j hold] at hat'
        by_contra hgt
        have hno := (hseal.pending hl j e' (by omega) hat').1
        rw [hno] at hc'
        cases hc'
      · obtain ⟨-,b',hb',hbc'⟩ := habove j e' (Nat.not_le.mp hold) hat'
        have := hbatch _ b' (by omega) hb' (hbc'.symm.trans hc')
        omega

variable [Raftpb] {S : Message → Prop}

theorem Move.since (hf : Firm x c) (hseal : c.Sealed x) (h : c₀.Since c) (hm : Move S c c') :
    c₀.Since c' := by
  cases hm with
  | send hs =>
    have hframe := hs.frame
    exact h.of_same hframe.term hframe.state (by rw [hframe.raftLog]) (by rw [hframe.raftLog])
      (by rw [hframe.raftLog])
  | follow ht => exact h.of_not ht nofun nofun
  | preStand => exact h.of_not le_rfl nofun nofun
  | stand => exact h.of_not (Nat.le_succ _) nofun (fun _ => Nat.lt_succ_self _)
  | poll | ack | vote | stale | skip | pend => exact h.of_same rfl rfl rfl rfl le_rfl
  | elect hcand =>
    exact ⟨h.term,fun _ => nofun,fun he _ => absurd hcand (h.stands he)⟩
  | append hl hscr happ => exact h.append hf hseal hl hscr happ ⟨rfl,rfl,rfl⟩
  | commit _ hl =>
    rcases RaftLog.maybeCommit_spec hl with ⟨hb,-⟩ | ⟨-,-,-,rfl⟩
    · cases hb
    · exact h.of_same rfl rfl (RaftLog.commitTo_unstable _ _) (RaftLog.commitTo_storage _ _)
        (RaftLog.commitTo_applied _ _).ge
  | accept _ _ _ hfol | beat _ _ _ hfol | forward _ _ _ hfol | restore _ _ _ _ hfol =>
    refine h.of_not le_rfl (fun hl => ?_) (fun hc => ?_)
    · cases hfol.symm.trans hl
    · cases hfol.symm.trans hc

theorem HostMove.since (hf : Firm x c) (hseal : c.Sealed x) (h : c₀.Since c)
    (hm : HostMove S c c') : c₀.Since c' := by
  cases hm with
  | move hm => exact hm.since hf hseal h
  | @applied l n happ =>
    have hsame : l.unstable=c.raftLog.unstable ∧ l.storage=c.raftLog.storage ∧
        c.raftLog.applied≤l.applied := by
      rcases RaftLog.appliedTo_spec happ with ⟨-,rfl⟩ | ⟨-,hle,-,rfl⟩
      · exact ⟨rfl,rfl,le_rfl⟩
      · exact ⟨rfl,rfl,hle⟩
    exact h.of_same rfl rfl hsame.1 hsame.2.1 hsame.2.2
  | leave hl hp happ => exact h.append hf hseal hl (screened_leave hp) happ ⟨rfl,rfl,rfl⟩

theorem HostMoves.since (hS : ∀ m, S m → m.Fine ∧ m.Anchored ∧ m.Ranked) (hf : Firm x c)
    (hseal : c.Sealed x) (hm : HostMoves S c c') :
    c'.Sealed x ∧ (c.state=.stateLeader → c.Since c') := by
  have hS' : ∀ m, S m → m.Fine ∧ m.Anchored := fun m hm => ⟨(hS m hm).1,(hS m hm).2.1⟩
  induction hm with
  | refl => exact ⟨hseal,fun hl => .refl hf hl⟩
  | tail h1 hm ih =>
    have hfirm := HostMoves.firm hS' hf h1
    exact ⟨hm.sealed hS hfirm ih.1,fun hl => hm.since hfirm ih.1 (ih.2 hl)⟩

end

/-- Only what is handed out counts of a session. -/
theorem Sealed.of_pending {y : LogSession} (h : c.Sealed x) (hp : y.pending=x.pending) :
    c.Sealed y :=
  ⟨h.unstable,fun h' hy => h.handed h' (hp ▸ hy),fun hl h' hy => h.own hl h' (hp ▸ hy),h.pending⟩

/-- The application writes to storage, where the log reads no entry that it did not have. -/
theorem Sealed.write {ms : MemoryStorage} (h : c.Sealed x)
    (hat : c.state=.stateLeader → ∀ i e,
      RaftLog.entryAt { c.raftLog with storage := ms } i=some e → c.raftLog.entryAt i=some e) :
    (c.setLog { c.raftLog with storage := ms }).Sealed x :=
  ⟨h.unstable,h.handed,h.own,fun hl i e hi he => h.pending hl i e hi (hat hl i e he)⟩

/-- What a leader reads after Advance it has read before, or it stands before an entry of an
older term that has just been found in place. -/
theorem Sealed.stabilized {h : Handout} {i : Nat} {e : Entry} (hseal : c.Sealed x) (hf : Firm x c)
    (hl : c.state=.stateLeader) (hp : x.pending=some h) (hst : x.stage=.stored)
    (he : (c.raftLog.stabilize h.entries h.snapshot).entryAt i=some e) :
    c.raftLog.entryAt i=some e ∨
      ∃ j e', i≤j ∧ c.raftLog.entryAt j=some e' ∧ e'.term≠c.term := by
  have hh : (x.setLog c.raftLog).Hand h := hf.base.hand h hp
  rcases stabilize_entryAt hh.numbered hh.pos he with he | ⟨hlow,hhigh,hyes,he⟩
  · exact .inl he
  have hne : h.entries≠[] := by
    intro hnil
    rw [hnil] at hyes
    cases hyes
  obtain ⟨el,hlast,hget,hidx⟩ := numbered_getLast hh.numbered hne
  have hpos := hh.pos
  by_cases hown : el.term=c.term
  · -- handed out by the leader itself, which has only appended since
    left
    obtain ⟨hoff,hpre⟩ := hseal.own hl h hp el (List.mem_of_getElem? hget) hown
    have hd := (MemoryStorage.entryAt_isSome.mp (Option.isSome_of_mem he)).1
    have hcontent : c.raftLog.storage.entryAt i=h.entries[i-h.offset]? :=
      hh.content hst hne i (by omega) hd
    rw [hcontent] at he
    rw [RaftLog.entryAt_of_le hlow,Unstable.entryAt_of_le hlow,hoff]
    obtain ⟨rest,hrest⟩ := hpre
    rw [← hrest,List.getElem?_append_left (List.getElem?_eq_some_iff.mp he).1,he]
  · right
    obtain ⟨hin,hterm⟩ := (confirms_of_last hlast).mp hyes
    obtain ⟨e',he',ht⟩ := Option.map_eq_some_iff.mp hterm
    refine ⟨el.index,e',by omega,?_,fun h' => hown (ht.symm.trans h')⟩
    rwa [RaftLog.entryAt_of_le hin]

theorem Sealed.advance {h : Handout} {y : LogSession} (hseal : c.Sealed x) (hf : Firm x c)
    (hp : x.pending=some h) (hst : x.stage=.stored) (hy : y.pending=none) :
    (c.setLog (c.raftLog.stabilize h.entries h.snapshot)).Sealed y := by
  have hh : (x.setLog c.raftLog).Hand h := hf.base.hand h hp
  refine ⟨fun e he => ?_,fun h' hp' => ?_,fun _ h' hp' => ?_,fun hl i e hi he => ?_⟩
  · obtain ⟨u,hu,-,hcases⟩ := stabilize_cases c.raftLog hh.numbered hh.pos
    rw [hu] at he
    change e∈u.entries at he
    rcases hcases with ⟨hents,-⟩ | ⟨-,-,-,hents,-⟩
    · rw [hents] at he
      exact hseal.unstable e he
    · rw [hents] at he
      exact hseal.unstable e (List.mem_of_mem_drop he)
  · rw [hy] at hp'
    cases hp'
  · rw [hy] at hp'
    cases hp'
  · rcases hseal.stabilized hf hl hp hst he with he | ⟨j,e',hij,he',ht⟩
    · exact hseal.pending hl i e hi he
    · exact absurd (hseal.pending hl j e' (Nat.lt_of_lt_of_le hi hij) he').2 ht

end Core

namespace Session

open LogSession RaftTesting.Core

variable [Raftpb] {x x' y : Session} {a : Act} {acts : List Act}

/-- Appends carry no entry of a later term than their own. -/
def Ranked (_ : Session) : Act → Prop
  | .step m => m.Ranked
  | _ => True

instance decidableRanked (x : Session) : (a : Act) → Decidable (x.Ranked a)
  | .step m => inferInstanceAs (Decidable m.Ranked)
  | .tick | .applyConfChange _ | .ready | .save | .append | .compact _ | .advance => .isTrue trivial

def Sealed (x : Session) : Prop := x.rn.raft.core.Sealed x.log

/-- A configuration entry is added only when all before it are applied, those of the log as
well as those that are added with it. -/
def OneChange (x x' : Session) : Prop := ∀ i e, x.raftLog.lastIndex < i →
  x'.raftLog.entryAt i=some e → e.isConf=true →
    (∀ j e', x.raftLog.entryAt j=some e' → e'.isConf=true → j≤x'.raftLog.applied) ∧
    ∀ j e', x.raftLog.lastIndex < j → j < i → x'.raftLog.entryAt j=some e' → e'.isConf=true →
      j≤x'.raftLog.applied

omit [Raftpb] in
/-- The new entries of the session are those that its leader has added. -/
theorem oneChange_of_grew {c c' : Core} (hnone : x.raftLog.unstable.snapshot=none)
    (hlog : c.raftLog=x.raftLog) (h : c.Grew c')
    (hat : ∀ i e, x.raftLog.lastIndex < i → x'.raftLog.entryAt i=some e →
      c'.raftLog.entryAt i=some e)
    (happ : c'.raftLog.applied≤x'.raftLog.applied) : x.OneChange x' := by
  intro i e hi he hc
  have hgrew := h.conf i e (by rwa [hlog]) (hat i e hi he) hc
  refine ⟨fun j e' he' hc' => ?_,fun j e' hj hji he' hc' => ?_⟩
  · have hle := RaftLog.entryAt_within hnone he'
    rw [← hlog] at hle he' hi
    exact (hgrew j e' (Nat.lt_of_le_of_lt hle hi) ((h.same j hle).trans he') hc').trans happ
  · exact (hgrew j e' hji (hat j e' hj he') hc').trans happ

omit [Raftpb] in
/-- Without new entries there is nothing to show. -/
theorem oneChange_of_same (hnone : x.raftLog.unstable.snapshot=none)
    (hat : ∀ i e, x'.raftLog.entryAt i=some e → x.raftLog.entryAt i=some e) : x.OneChange x' :=
  fun i e hi he _ => absurd (RaftLog.entryAt_within hnone (hat i e he)) (Nat.not_le.mpr hi)

/-- The raft has made moves, after a configuration was installed or without one. -/
theorem Sealed.moves {c : Core} {r : Raft} (hf : c.Firm x.log) (hc : c.Sealed x.log)
    (hm : Moves (fun m => m.Fine ∧ m.Anchored ∧ m.Ranked) c r.core) :
    r.core.Sealed x.log ∧ (c.state=.stateLeader → r.state=.stateLeader → r.term=c.term →
      c.Grew r.core) := by
  obtain ⟨hseal,hsince⟩ := HostMoves.since (fun _ hm => hm) hf hc hm.host
  exact ⟨hseal,fun hl hl' ht => (hsince hl).grew ht hl'⟩

/-- What is left of an act: the log stays sealed, and its leader changes one thing at a time. -/
def Keeps (x x' : Session) : Prop := x'.Sealed ∧ (x.rn.raft.state=.stateLeader →
  x'.rn.raft.state=.stateLeader → x'.rn.raft.term=x.rn.raft.term → x.OneChange x')

theorem Sealed.setRaft {c : Core} {r : Raft} (h : x.Firm) (hlog : c.raftLog=x.raftLog)
    (hstate : c.state=x.rn.raft.state) (hterm : c.term=x.rn.raft.term)
    (hf : c.Firm x.log) (hc : c.Sealed x.log)
    (hm : Moves (fun m => m.Fine ∧ m.Anchored ∧ m.Ranked) c r.core) : x.Keeps (x.setRaft r) := by
  obtain ⟨hseal,hgrew⟩ := Sealed.moves hf hc hm
  refine ⟨hseal.of_pending rfl,fun hl hl' ht => ?_⟩
  exact oneChange_of_grew (h.leader_vacant hl) hlog (hgrew (hstate.trans hl) hl' (ht.trans hterm.symm))
    (fun _ _ _ he => he) le_rfl

theorem Sealed.does_write (h : x.Firm) (hx : x.Sealed) {ms : MemoryStorage} {stage : Stage}
    (hfits : x.Fits a) (ha : a=.save ∨ a=.append ∨ ∃ i, a=.compact i)
    (hd : x.Does a (x.write ms stage)) : x.Keeps (x.write ms stage) := by
  have hat : x.rn.raft.state=.stateLeader → ∀ i e,
      (x.write ms stage).raftLog.entryAt i=some e → x.raftLog.entryAt i=some e := by
    intro hl i e he
    rcases h.does_entryAt (h.leader_vacant hl) hfits ha hd i with heq | ⟨hgone,-⟩
    · exact heq.symm.trans he
    · rw [hgone] at he
      cases he
  refine ⟨?_,fun hl _ _ => oneChange_of_same (h.leader_vacant hl) (hat hl)⟩
  exact (Core.Sealed.write hx hat).of_pending rfl

theorem Sealed.advance {w : Work} {rn : RawNode} (h : x.Firm) (hx : x.Sealed) (hw : x.work=some w)
    (hst : x.stage=.stored) (hadv : x.rn.advance w.ready=.ok rn) :
    x.Keeps { rn := rn, handed := x.handed } := by
  obtain ⟨r',hr',hadv⟩ := bind_eq_ok.mp hadv
  cases hadv
  obtain ⟨r1,h1,hr'⟩ := bind_eq_ok.mp hr'
  cases hr'
  have hm : HostMoves (fun m => m.Fine ∧ m.Anchored ∧ m.Ranked) x.rn.raft.core r1.core :=
    Raft.advanceApplied_moves (r := x.rn.raft.reduceUncommittedSize _) h1
  have hf := hm.firm (fun _ hm => ⟨hm.1,hm.2.1⟩) h
  obtain ⟨hseal,hsince⟩ := HostMoves.since (fun _ hm => hm) h hx hm
  have hp : x.log.pending=some w.handout := log_pending hw
  refine ⟨hseal.advance hf hp hst rfl,fun hl hl' ht => ?_⟩
  have hgrew := (hsince hl).grew ht hl'
  refine oneChange_of_grew (h.leader_vacant hl) rfl hgrew (fun i e hi he => ?_) ?_
  · rcases hseal.stabilized hf hl' hp hst he with he | ⟨j,e',hij,he',hne⟩
    · exact he
    · exact absurd (hgrew.term j e' (Nat.lt_of_lt_of_le hi hij) he') hne
  · change r1.raftLog.applied≤(w.ready.stabilize r1.raftLog).applied
    rw [w.ready.stabilize_eq r1.raftLog]

theorem Sealed.act (hx : x.Sealed) (h : x.Firm) (hfits : x.Fits a) (hanch : x.Anchored a)
    (hrank : x.Ranked a) (hact : x.act a=.ok x') : x.Keeps x' := by
  have hdoes := act_does hact
  have hdid := hdoes
  cases hdoes with
  | stay => exact ⟨hx,fun hl _ _ => oneChange_of_same (h.leader_vacant hl) (fun _ _ he => he)⟩
  | step hr =>
    exact Sealed.setRaft h rfl rfl rfl h hx
      (Raft.step_moves (fun _ => ⟨hfits,hanch,hrank⟩) hfits.stamped hr)
  | tick hr => exact Sealed.setRaft h rfl rfl rfl h hx (Raft.tick_moves hr)
  | @applyConfChange cc r cs hr =>
    obtain ⟨t,-,hm⟩ := Raft.applyConfChange_moves hr
    have hf : (x.rn.raft.core.install t).Firm x.log := ⟨h.base,h.old,h.calm,h.tidy,h.settled⟩
    have hc : (x.rn.raft.core.install t).Sealed x.log := hx.of_same rfl rfl rfl rfl le_rfl
    obtain ⟨hseal,hone⟩ := Sealed.setRaft h rfl rfl rfl hf hc hm
    exact ⟨hseal.of_pending rfl,hone⟩
  | @ready rd hw hr =>
    have hh := ready_handout hr
    obtain ⟨he,-,ho,-⟩ := h.base.cursor hh
    refine ⟨⟨hx.unstable,fun h' hp e hmem => ?_,fun _ h' hp e hmem _ => ?_,hx.pending⟩,
      fun hl _ _ => oneChange_of_same (h.leader_vacant hl) (fun _ _ he => he)⟩
    · cases hp
      rw [he] at hmem
      exact hx.unstable e hmem
    · cases hp
      exact ⟨ho.symm,he ▸ List.prefix_rfl⟩
  | save hw hst => exact Sealed.does_write h hx hfits (.inl rfl) hdid
  | append hw hst hms => exact Sealed.does_write h hx hfits (.inr (.inl rfl)) hdid
  | compact hms => exact Sealed.does_write h hx hfits (.inr (.inr ⟨_,rfl⟩)) hdid
  | advance hw hst hadv => exact Sealed.advance h hx hw hst hadv

/-- Bootstrap leaves entries of term 1 to a node of that term, any other start none. -/
theorem Start.sealed (hx : x.Start) : x.Sealed := by
  have hfol := hx.follower
  have hterm : ∀ e ∈ x.raftLog.unstable.entries, e.term≤x.rn.raft.term := by
    cases hx with
    | fresh hms h =>
      obtain ⟨r,hr,h⟩ := bind_eq_ok.mp h
      cases h
      obtain ⟨n,hlog⟩ := (Raft.newRaft_begun hr).log
      intro e he
      change e∈r.raftLog.unstable.entries at he
      rw [hlog] at he
      cases he
    | @boot c draws rn rn' marshal peers hms h hboot =>
      obtain ⟨r,hr,h⟩ := bind_eq_ok.mp h
      cases h
      have hb := Raft.newRaft_begun hr
      obtain ⟨hne,-,l,t,b,hl,rfl⟩ := RawNode.bootstrap_spec hboot
      have hj := begun_joined hms hb
      obtain ⟨n,hlog⟩ := hb.log
      intro e he
      change e∈l.unstable.entries at he
      change e.term≤1
      rcases RaftLog.append_mem hj.base.unstable hj.base.pos
        (RawNode.bootstrapEntries_numbered marshal peers) (bootstrapEntries_ne marshal hne) hl he
        with he | he
      · change e∈r.raftLog.unstable.entries at he
        rw [hlog] at he
        cases he
      · simp only [RawNode.bootstrapEntries,List.mem_mapIdx] at he
        obtain ⟨k,hk,rfl⟩ := he
        exact le_rfl
  have hidle : x.log.pending=none := by
    cases hx <;> rfl
  refine ⟨fun e he => ⟨hterm e he,fun hc => ?_⟩,fun h hp => ?_,fun hl => ?_,fun hl => ?_⟩
  · cases hfol.symm.trans hc
  · rw [hidle] at hp
    cases hp
  · cases hfol.symm.trans hl
  · cases hfol.symm.trans hl

theorem run_sealed (hx : x.Start) (hfits : x.Along Fits acts) (hanch : x.Along Anchored acts)
    (hrank : x.Along Ranked acts) (hy : x.run acts=.ok y) : y.Firm ∧ y.Sealed :=
  run_induct (I := fun x => x.Firm ∧ x.Sealed)
    (fun _ _ _ h hP hact => ⟨h.1.act hP.1.1 hP.1.2 hact,(h.2.act h.1 hP.1.1 hP.1.2 hP.2 hact).1⟩)
    ⟨hx.firm,hx.sealed⟩ ((hfits.and hanch).and hrank) hy

/-- Every configuration entry of a leader stands at its pending index or before, and the leader
adds one only when all before it are applied. -/
theorem run_oneChange (hx : x.Start) (hfits : x.Along Fits acts) (hanch : x.Along Anchored acts)
    (hrank : x.Along Ranked acts) (hy : x.run acts=.ok y) (hlead : y.rn.raft.state=.stateLeader) :
    (∀ i e, y.raftLog.entryAt i=some e → e.isConf=true → i≤y.rn.raft.pendingConfIndex) ∧
    ∀ a y', y.Fits a → y.Anchored a → y.Ranked a → y.act a=.ok y' →
      y'.rn.raft.state=.stateLeader → y'.rn.raft.term=y.rn.raft.term → y.OneChange y' := by
  obtain ⟨hfirm,hseal⟩ := run_sealed hx hfits hanch hrank hy
  refine ⟨fun i e he hc => ?_,fun a y' hf ha hr hact hl ht => ?_⟩
  · by_contra hlt
    have hno := (hseal.pending hlead i e (Nat.not_le.mp hlt) he).1
    rw [hno] at hc
    cases hc
  · exact (hseal.act hfirm hf ha hr hact).2 hlead hl ht

end Session

namespace Session

section

local instance pendingWire : Raftpb := Wire.small

def solo : Except Panic Session := do
  let rn ← RawNode.newRawNode Raft.soloConfig []
  .ok { rn := rn }

theorem solo_start {x : Session} (h : solo=.ok x) : x.Start := by
  obtain ⟨rn,hrn,h⟩ := bind_eq_ok.mp h
  cases h
  exact .fresh ⟨by decide,by decide⟩ hrn

/-- Two changes are proposed at once, of which the second one is refused. The first one is
applied after the empty entry of the leader. -/
def extended : List Act :=
  [.step { type := .msgHup, toId := 1 },
  .step { type := .msgProp, toId := 1, fromId := 1, entries := [Raft.addition,Raft.addition] },
  .ready,.save,.append,.advance,
  .ready,.save,.append,.applyConfChange { changes := [⟨.addNode,2⟩] },.advance]

/-- The next change is taken at index 4, after the one at index 2 has been applied. -/
theorem run_oneChange_extended : ∃ x y y' e, solo=.ok x ∧ x.run extended=.ok y ∧
    y.act (.step (Raft.proposal Raft.addition))=.ok y' ∧ y'.raftLog.entryAt 4=some e ∧
    e.isConf=true ∧
    (∀ i e, y.raftLog.entryAt i=some e → e.isConf=true → i≤y.rn.raft.pendingConfIndex) ∧
    ∀ j e', y.raftLog.entryAt j=some e' → e'.isConf=true → j≤y'.raftLog.applied := by
  obtain ⟨x,y,y',e,hx,hfits,hanch,hrank,hy,hlead,hact,hlead',hterm,hlast,he,hc⟩ : ∃ x y y' e,
      solo=.ok x ∧ x.Along Fits extended ∧ x.Along Anchored extended ∧ x.Along Ranked extended ∧
      x.run extended=.ok y ∧ y.rn.raft.state=.stateLeader ∧
      y.act (.step (Raft.proposal Raft.addition))=.ok y' ∧ y'.rn.raft.state=.stateLeader ∧
      y'.rn.raft.term=y.rn.raft.term ∧ y.raftLog.lastIndex<4 ∧ y'.raftLog.entryAt 4=some e ∧
      e.isConf=true :=
    ⟨_,_,_,_,rfl,by decide +kernel,by decide +kernel,by decide +kernel,rfl,by decide +kernel,rfl,
      by decide +kernel,by decide +kernel,by decide +kernel,rfl,by decide +kernel⟩
  obtain ⟨hpending,hone⟩ := run_oneChange (solo_start hx) hfits hanch hrank hy hlead
  have hfine : (Raft.proposal Raft.addition).Fine := by decide
  have hadded := hone (.step (Raft.proposal Raft.addition)) y' hfine ⟨nofun,nofun⟩ nofun hact hlead'
    hterm 4 e hlast he hc
  exact ⟨x,y,y',e,hx,hy,hact,he,hc,hpending,hadded.1⟩

end

end Session

end RaftTesting
