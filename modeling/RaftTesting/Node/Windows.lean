import RaftTesting.ConfChange.Progress
import RaftTesting.Node.Start
import RaftTesting.Protocol.Wire
import RaftTesting.Transition.Faults
import RaftTesting.Transition.Log

namespace RaftTesting

/-- Every entry of the log stands where its index says. -/
structure RaftLog.Placed (l : RaftLog) : Prop where
  pos : 1≤l.unstable.offset
  unstable : Numbered (l.unstable.offset-1) l.unstable.entries
  stored : Numbered l.storage.dummy.index l.storage.stored

theorem LogSession.Base.placed {x : LogSession} (hx : x.Base) : x.log.Placed :=
  ⟨hx.pos,hx.unstable,hx.stored⟩

theorem RaftLog.Placed.last_entry [Raftpb] {l : RaftLog} {i n : Nat} {ents : List Entry}
    {e : Entry} (hl : l.Placed) (h : l.entries i n=.ok (.ok ents)) (he : ents.getLast?=some e) :
    i≤e.index := by
  have hreads : l.Reads i ents := by
    unfold RaftLog.entries at h
    split at h
    · cases h
      exact fun k e hk => by simp at hk
    · exact (slice_reads h).2.2.2.1
  rw [List.getLast?_eq_getElem?] at he
  have := entryAt_index hl.pos hl.stored hl.unstable (hreads _ e he)
  omega

namespace Core

/-- The windows of a leader's peers are in order; own tells whether its own one is, too. -/
def Paced (own : Prop) (c : Core) : Prop := c.state=.stateLeader → ∀ id pr, (id=c.id → own) →
  c.prs.progress.get? id=some pr → pr.Paced c.prs.maxInflight

variable {own : Prop} {c c' : Core}

theorem paced_of_not (h : c.state≠.stateLeader) : c.Paced own := fun hl => absurd hl h

namespace Paced

theorem of_same (hp : c.Paced own) (hi : c'.id=c.id) (hs : c'.state=c.state)
    (hprs : c'.prs=c.prs) : c'.Paced own := by
  intro hl id pr ho hget
  rw [hprs] at hget ⊢
  exact hp (hs ▸ hl) id pr (hi ▸ ho) hget

/-- The progress of one peer is written. -/
theorem set (hp : c.Paced own) {id : Nat} {pr : Progress}
    (hpr : c.state=.stateLeader → (id=c.id → own) → pr.Paced c.prs.maxInflight) :
    (c.setProgress id pr).Paced own := by
  intro hl id' pr' ho hget
  change (SortedMap.insert _ _ _).get? id'=some pr' at hget
  rw [SortedMap.get?_insert] at hget
  split_ifs at hget with he
  · cases hget
    exact hpr hl (he ▸ ho)
  · exact hp hl id' pr' ho hget

end Paced

theorem progressSent_paced {n : Nat} {pr pr' : Progress} {ents : List Entry} (hp : pr.Paced n)
    (hents : ∀ e, ents.getLast?=some e → pr.next≤e.index)
    (h : Raft.progressSent pr ents=.ok pr') : pr'.Paced n := by
  unfold Raft.progressSent at h
  split at h
  · cases h
    exact hp
  · rename_i e he
    split at h
    · rename_i hs
      obtain ⟨i,hi,h⟩ := bind_eq_ok.mp h
      cases h
      exact hp.sent (hents e he) hs hi
    · cases h
      exact hp.of_same rfl rfl rfl rfl
    · cases h

section

variable [Raftpb] {S : Message → Prop}

theorem Send.paced (hl : c.raftLog.Placed) (hp : c.Paced own) (h : Send S c c') :
    c'.Paced own := by
  cases h with
  | app _ hget _ hents hpr =>
    refine Paced.of_same (hp.set (fun hs ho => ?_)) rfl rfl rfl
    exact progressSent_paced (hp hs _ _ ho hget) (fun e he => hl.last_entry hents he) hpr
  | snap _ hget _ =>
    refine Paced.of_same (hp.set (fun hs ho => ?_)) rfl rfl rfl
    exact (hp hs _ _ ho hget).becomeSnapshot _
  | heartbeat | plain => exact hp.of_same rfl rfl rfl
  | track hflow =>
    intro hs id pr ho hget
    have hrel := hflow id
    change SortedMap.get? _ id=some pr at hget
    rw [hget] at hrel
    generalize hold : c.prs.progress.get? id=a at hrel
    cases hrel with
    | some hf => exact hf.paced _ (hp hs id _ ho hold)
  | back _ _ _ hget hb => exact hp.set (fun hs ho => hb.paced _ (hp hs _ _ ho hget))
  | read hr => exact hp.of_same hr.frame.id hr.frame.state hr.said.1

/-- What a node does to itself keeps the windows in order. Its own one it may break only
when it takes a proposal. -/
theorem Move.paced (hl : c.raftLog.Placed) (hprop : own → ∀ m, S m → m.type≠.msgProp)
    (hp : c.Paced own) (h : Move S c c') : c'.Paced own := by
  cases h with
  | send h => exact h.paced hl hp
  | follow | preStand | stand => exact paced_of_not (fun h => nomatch h)
  | poll hs =>
    refine paced_of_not (fun hl => ?_)
    change c.state=_ at hl
    rw [hl] at hs
    exact hs.elim (fun h => nomatch h) (fun h => nomatch h)
  | elect hs hwon hget =>
    -- all progress starts anew
    have hnew : ∀ id pr, (c.reset c.term).prs.progress.get? id=some pr →
        pr.Paced c.prs.maxInflight := by
      intro id pr hget
      change (SortedMap.mapVals _ _).get? id=some pr at hget
      rw [SortedMap.get?_mapVals,Option.map_eq_some_iff] at hget
      obtain ⟨pr0,-,rfl⟩ := hget
      exact Progress.paced_empty (Inflights.newInflights_ringed _) rfl (fun h => nomatch h) rfl
    intro _ id pr _ hget'
    change (SortedMap.insert _ _ _).get? id=some pr at hget'
    rw [SortedMap.get?_insert] at hget'
    split_ifs at hget'
    · cases hget'
      exact (hnew _ _ hget).becomeReplicate
    · exact hnew id pr hget'
  | append hs _ _ hget hown =>
    refine Paced.of_same (hp.set (fun hl ho => ?_)) rfl rfl rfl
    refine (hp hl _ _ ho hget).maybeUpdate_empty ?_ _
    exact hown.resolve_left (fun ⟨m,hm,ht⟩ => hprop (ho rfl) m hm ht)
  | pend | commit | vote | accept | stale | beat | skip | forward => exact hp.of_same rfl rfl rfl
  | ack _ _ _ _ _ hget _ hpaced => exact hp.set (fun hs ho => hpaced _ (hp hs _ _ ho hget))
  | restore _ _ _ _ hs =>
    refine paced_of_not (fun hl => ?_)
    cases hs.symm.trans hl

theorem Sends.paced (hl : c.raftLog.Placed) (hp : c.Paced own) (h : Sends S c c') :
    c'.Paced own := by
  induction h with
  | refl => exact hp
  | tail h1 h ih =>
    have hlog := Sends.frame h1
    exact h.paced (hlog.raftLog ▸ hl) ih

theorem Moves.paced {x : LogSession} (hS : ∀ m, S m → m.Fine) (hx : x.Base)
    (hold : x.log.storage.snapshot.index≤x.log.committed) (hlog : c.raftLog=x.log)
    (hprop : own → ∀ m, S m → m.type≠.msgProp) (hp : c.Paced own) (h : Moves S c c') :
    c'.Paced own := by
  induction h with
  | refl => exact hp
  | tail h1 h ih =>
    have hl : Logs (fun _ _ => True) x _ := Moves.logs hS hx hold hlog h1
    exact h.paced (hx.changes hl.changes).placed hprop ih

end

end Core

namespace Raft

open RaftTesting.Core

variable {own : Prop} {r r' : Raft}

/-- Nothing is in flight from a node to itself. -/
def OwnEmpty (r : Raft) : Prop :=
  ∀ pr ∈ r.prs.progress.get? r.id, pr.inflights.window=[]

instance decidableOwnEmpty (r : Raft) : Decidable r.OwnEmpty :=
  inferInstanceAs (Decidable (∀ pr ∈ r.prs.progress.get? r.id, pr.inflights.window=[]))

/-- The tests that bring a proposal to appendEntry: those of Step and of the MsgProp branch of
stepLeader. -/
def TakesProp (r : Raft) (m : Message) : Prop :=
  r.state=.stateLeader ∧ m.type=.msgProp ∧ (m.term=0 ∨ m.term=r.term) ∧ m.entries≠[] ∧
    (r.prs.progress.get? r.id).isSome ∧ r.leadTransferee=noNode

instance decidableTakesProp (r : Raft) (m : Message) : Decidable (r.TakesProp m) :=
  inferInstanceAs (Decidable (_ ∧ _ ∧ _ ∧ _ ∧ _ ∧ _))

/-- The tests of advance that bring the entry that leaves a joint configuration to
appendEntry. -/
def AutoLeaves (r : Raft) (newApplied : Nat) : Prop :=
  newApplied≠0 ∧ r.prs.config.autoLeave ∧ r.raftLog.applied≤r.pendingConfIndex ∧
    r.pendingConfIndex≤newApplied ∧ r.state=.stateLeader

instance decidableAutoLeaves (r : Raft) (newApplied : Nat) : Decidable (r.AutoLeaves newApplied) :=
  inferInstanceAs (Decidable (_ ∧ _ ∧ _ ∧ _ ∧ _))

/-- The leader counts what it appends as its own, without a look at its own window. -/
theorem appendEntry_paced {es : List Entry} {b : Bool} (hp : r.core.Paced own)
    (hown : own → r.OwnEmpty) (h : r.appendEntry es=.ok (r',b)) : r'.core.Paced own := by
  rcases appendEntry_spec h with ⟨-,rfl,-⟩ | ⟨rfl,-,l,pr,changed,hl,hget,hc⟩
  · exact hp
  · obtain ⟨k,rfl⟩ := maybeCommit_eq hc
    have hset : (r.setProgress r.id (pr.maybeUpdate l.lastIndex).1).core.Paced own :=
      hp.set (fun hs ho =>
        (hp hs _ _ ho hget).maybeUpdate_empty (hown (ho rfl) pr hget) _)
    exact hset.of_same rfl rfl rfl

theorem advanceApplied_same {n : Nat} (h : r.advanceApplied n=.ok r') :
    r'.term=r.term ∧ r'.state=r.state := by
  unfold advanceApplied at h
  split at h
  · cases h
    exact ⟨rfl,rfl⟩
  obtain ⟨l,-,h⟩ := bind_eq_ok.mp h
  dsimp only at h
  split at h
  · obtain ⟨⟨r1,accepted⟩,happ,h⟩ := bind_eq_ok.mp h
    dsimp only at h
    split at h
    · cases h
    · cases h
      have hsame := appendEntry_same happ
      exact hsame
  · cases h
    exact ⟨rfl,rfl⟩

/-- Advance moves the applied index, and a leader may leave its joint configuration. -/
theorem advanceApplied_paced {n : Nat} (hp : r.core.Paced own)
    (hown : own → r.AutoLeaves n → r.OwnEmpty) (h : r.advanceApplied n=.ok r') :
    r'.core.Paced own := by
  unfold advanceApplied at h
  split at h
  · cases h
    exact hp
  rename_i hn
  obtain ⟨l,-,h⟩ := bind_eq_ok.mp h
  dsimp only at h
  split at h
  · rename_i hauto
    obtain ⟨⟨r1,accepted⟩,happ,h⟩ := bind_eq_ok.mp h
    dsimp only at h
    split at h
    · cases h
    · cases h
      have hp1 : (r.setLog l).core.Paced own := hp.of_same rfl rfl rfl
      have hown1 : own → (r.setLog l).OwnEmpty := fun ho => hown ho ⟨hn,hauto⟩
      exact (appendEntry_paced hp1 hown1 happ).of_same rfl rfl rfl
  · cases h
    exact hp.of_same rfl rfl rfl

section

variable [Raftpb] {m : Message}

theorem leaderProp_paced {x : LogSession} {err : Option StepErr} (hm : m.Fine)
    (ht : m.type=.msgProp) (hterm : m.term=0 ∨ m.term=r.term) (hx : x.Base)
    (hold : x.log.storage.snapshot.index≤x.log.committed) (hlog : r.raftLog=x.log)
    (hlead : r.state=.stateLeader) (hp : r.core.Paced own)
    (hown : own → r.TakesProp m → r.OwnEmpty) (h : r.leaderProp m=.ok (r',err)) :
    r'.core.Paced own := by
  unfold leaderProp at h
  split at h
  · cases h
  rename_i hne
  split at h
  · cases h
    exact hp
  rename_i hself
  split at h
  · cases h
    exact hp
  rename_i htr
  rw [Bool.not_eq_true,Option.isNone_eq_false_iff] at hself
  have htakes : r.TakesProp m :=
    ⟨hlead,ht,hterm,fun he => hne (he ▸ rfl),hself,not_not.mp htr⟩
  obtain ⟨⟨r1,es⟩,hscr,h⟩ := bind_eq_ok.mp h
  obtain ⟨⟨r2,accepted⟩,happ,h⟩ := bind_eq_ok.mp h
  obtain ⟨hr1,hscreen⟩ := screenEntries_spec hscr
  have hlog1 : r1.raftLog=r.raftLog := by rw [hr1]
  have hstate1 : r1.state=.stateLeader := by rw [hr1]; exact hlead
  have hp1 : r1.core.Paced own := by
    rw [hr1]
    exact hp.of_same rfl rfl rfl
  have hown1 : own → r1.OwnEmpty := by
    rw [hr1]
    exact fun ho => hown ho htakes
  have hp2 : r2.core.Paced own := appendEntry_paced hp1 hown1 happ
  dsimp only at h
  split at h
  · cases h
    exact hp2
  · obtain ⟨r3,hb,h⟩ := bind_eq_ok.mp h
    cases h
    -- the log is in order when the append goes out to the peers
    rw [← hlog1] at hscreen
    have hsourced := screenEntries_sourced (S := (·=m)) (fun e he => .inr ⟨m,rfl,ht,he⟩) hscr
    obtain ⟨hstep,hl2⟩ := appendEntry_stepped (S := (·=m)) hstate1 hscreen (.inl ⟨m,rfl,ht⟩)
      hsourced happ
    have hlogs : Logs (fun _ _ => True) x r2.core :=
      Moves.logs (by rintro _ rfl; exact hm) hx hold (hlog1.trans hlog) hstep.moves
    have hsends : Sends (fun _ => False) r2.core r'.core := (bcastAppend_sent hl2 hb).sends
    exact hsends.paced (hx.changes hlogs.changes).placed hp2

theorem leaderProp_same {err : Option StepErr} (hlead : r.state=.stateLeader)
    (h : r.leaderProp m=.ok (r',err)) : r'.term=r.term ∧ r'.state=.stateLeader := by
  unfold leaderProp at h
  split at h
  · cases h
  split at h
  · cases h
    exact ⟨rfl,hlead⟩
  split at h
  · cases h
    exact ⟨rfl,hlead⟩
  obtain ⟨⟨r1,es⟩,hscr,h⟩ := bind_eq_ok.mp h
  obtain ⟨⟨r2,accepted⟩,happ,h⟩ := bind_eq_ok.mp h
  obtain ⟨hr1,-⟩ := screenEntries_spec hscr
  obtain ⟨hterm,hstate⟩ := appendEntry_same happ
  have hterm2 : r2.term=r.term := by rw [hterm,hr1]
  have hstate2 : r2.state=.stateLeader := by rw [hstate,hr1]; exact hlead
  dsimp only at h
  split at h
  · cases h
    exact ⟨hterm2,hstate2⟩
  · obtain ⟨r3,hb,h⟩ := bind_eq_ok.mp h
    cases h
    have hf := (bcastAppend_sent (S := fun _ => False) hstate2 hb).sends.frame
    exact ⟨hf.term.trans hterm2,hf.state.trans hstate2⟩

/-- Only a leader does anything about a proposal that could change its peers. -/
theorem step_prop {err : Option StepErr} (ht : m.type=.msgProp) (h : r.step m=.ok (r',err)) :
    (r.state=.stateLeader ∧ (m.term=0 ∨ m.term=r.term) ∧ r.leaderProp m=.ok (r',err)) ∨ r'=r ∨
      r'.state≠.stateLeader ∧ r'.raftLog=r.raftLog := by
  have hstate : ∀ r : Raft, r.stepState m=.ok (r',err) →
      (r.state=.stateLeader ∧ r.leaderProp m=.ok (r',err)) ∨ r'=r ∨
        r'.state≠.stateLeader ∧ r'.raftLog=r.raftLog := by
    intro r h
    unfold stepState at h
    split at h
    · rename_i hs
      unfold stepFollower at h
      rw [ht] at h
      dsimp only at h
      split_ifs at h
      · cases h
        exact .inr (.inl rfl)
      · cases h
        exact .inr (.inl rfl)
      · obtain ⟨r1,h1,h⟩ := bind_eq_ok.mp h
        cases h
        refine .inr (.inr ?_)
        rw [(send_eq_ok h1).1]
        refine ⟨?_,rfl⟩
        change r.state≠_
        rw [hs]
        nofun
    · unfold stepCandidate at h
      rw [ht] at h
      cases h
      exact .inr (.inl rfl)
    · unfold stepCandidate at h
      rw [ht] at h
      cases h
      exact .inr (.inl rfl)
    · rename_i hs
      unfold stepLeader at h
      rw [ht] at h
      exact .inl ⟨hs,h⟩
  have htype : ∀ r : Raft, r.stepType m=r.stepState m := by
    intro r
    unfold stepType
    rw [ht]
  have hown : m.term=0 ∨ m.term=r.term → r.stepType m=.ok (r',err) →
      (r.state=.stateLeader ∧ (m.term=0 ∨ m.term=r.term) ∧ r.leaderProp m=.ok (r',err)) ∨
        r'=r ∨ r'.state≠.stateLeader ∧ r'.raftLog=r.raftLog := by
    intro hterm h
    rw [htype] at h
    exact (hstate r h).imp_left (And.imp_right (And.intro hterm))
  unfold step at h
  split at h
  · rename_i hzero
    exact hown (.inl hzero) h
  split at h
  · have hvote : r.ignoresVote m=false := by simp [ignoresVote,ht]
    have hkeep : keepsTerm m=false := by simp [keepsTerm,ht]
    rw [hvote,if_neg Bool.false_ne_true,hkeep,if_neg Bool.false_ne_true,htype] at h
    rcases hstate _ h with ⟨hs,-⟩ | rfl | hs
    · cases hs
    · exact .inr (.inr ⟨(fun hs => nomatch hs),rfl⟩)
    · exact .inr (.inr hs)
  split at h
  · obtain ⟨r1,h1,h⟩ := bind_eq_ok.mp h
    cases h
    unfold stepLower at h1
    simp only [ht,reduceCtorEq,or_self,and_false,if_false] at h1
    cases h1
    exact .inr (.inl rfl)
  · exact hown (.inr (by omega)) h

end

end Raft

theorem Core.Paced.install {own : Prop} {c : Core} {t : Tracked} (hp : c.Paced own)
    (hk : Kept c.prs.maxInflight c.raftLog.lastIndex c.prs.progress t.prs) :
    (c.install t).Paced own := by
  intro hl id pr ho hget
  change pr.Paced c.prs.maxInflight
  rcases hk id pr hget with ⟨pr0,hget0,hsame⟩ | hnew
  · rw [hsame]
    exact (hp hl id pr0 ho hget0).of_same rfl rfl rfl rfl
  · rw [hnew]
    exact Progress.paced_empty (Inflights.newInflights_ringed _) rfl (fun h => nomatch h) rfl

namespace Session

open LogSession RaftTesting.Core

variable [Raftpb] {own : Prop} {x x' y : Session} {a : Act} {acts : List Act}

/-- No act of a leader that has something in flight to itself reaches appendEntry, which is
where the log of a leader grows. -/
def OwnIdle (x : Session) : Act → Prop
  | .step m => x.rn.raft.TakesProp m → x.rn.raft.OwnEmpty
  | .advance => ∀ w ∈ x.work, x.stage=.stored → x.rn.raft.AutoLeaves w.ready.appliedCursor →
      x.rn.raft.OwnEmpty
  | _ => True

instance decidableOwnIdle (x : Session) : (a : Act) → Decidable (x.OwnIdle a)
  | .step m => inferInstanceAs (Decidable (x.rn.raft.TakesProp m → x.rn.raft.OwnEmpty))
  | .advance => inferInstanceAs (Decidable (∀ w ∈ x.work, x.stage=.stored →
      x.rn.raft.AutoLeaves w.ready.appliedCursor → x.rn.raft.OwnEmpty))
  | .tick | .applyConfChange _ | .ready | .save | .append | .compact _ => .isTrue trivial

theorem paced_step {m : Message} {r : Raft} {err : Option StepErr} (hx : x.Sane) (hm : m.Fine)
    (hp : x.rn.raft.core.Paced own) (hidle : own → x.OwnIdle (.step m))
    (h : x.rn.raft.step m=.ok (r,err)) : r.core.Paced own := by
  by_cases ht : m.type=.msgProp
  · rcases Raft.step_prop ht h with ⟨hlead,hterm,h⟩ | rfl | ⟨hnot,-⟩
    · exact Raft.leaderProp_paced hm ht hterm hx.base hx.old rfl hlead hp hidle h
    · exact hp
    · exact paced_of_not hnot
  · have hS : ∀ m', m'=m → m'.Fine := by
      rintro _ rfl
      exact hm
    refine Moves.paced hS hx.base hx.old rfl ?_ hp (Raft.step_moves (fun _ => rfl) hm.stamped h)
    rintro _ _ rfl
    exact ht

omit [Raftpb] in
theorem paced_advance {w : Work} {rn : RawNode} (hw : x.work=some w) (hst : x.stage=.stored)
    (hp : x.rn.raft.core.Paced own) (hidle : own → x.OwnIdle .advance)
    (h : x.rn.advance w.ready=.ok rn) : rn.raft.core.Paced own := by
  obtain ⟨r',hr',h⟩ := bind_eq_ok.mp h
  cases h
  obtain ⟨r1,h1,hr'⟩ := bind_eq_ok.mp hr'
  cases hr'
  have hown : own → x.rn.raft.AutoLeaves w.ready.appliedCursor → x.rn.raft.OwnEmpty :=
    fun ho => hidle ho w hw hst
  exact (Raft.advanceApplied_paced (r := x.rn.raft.reduceUncommittedSize _) hp hown h1).of_same
    rfl rfl rfl

/-- Every act keeps the windows in order. -/
theorem paced_act (hx : x.Sane) (hf : x.Fits a) (hidle : own → x.OwnIdle a)
    (hp : x.rn.raft.core.Paced own) (h : x.act a=.ok x') : x'.rn.raft.core.Paced own := by
  replace h := act_does h
  cases h with
  | stay => exact hp
  | step h => exact paced_step hx hf hp hidle h
  | tick h =>
    exact Moves.paced (S := fun _ => False) (fun _ hm => hm.elim) hx.base hx.old rfl
      (fun _ _ hm => hm.elim) hp (Raft.tick_moves h)
  | applyConfChange h =>
    obtain ⟨t,ht,hm⟩ := Raft.applyConfChange_moves (S := fun _ => False) h
    exact Moves.paced (fun _ hm => hm.elim) hx.base hx.old rfl (fun _ _ hm => hm.elim)
      (hp.install (Changer.change_kept ht)) hm
  | ready | save | append | compact => exact hp.of_same rfl rfl rfl
  | advance hw hst h => exact paced_advance hw hst hp hidle h

theorem run_paced (hx : x.Start) (hacts : x.Along Fits acts) (hown : own → x.Along OwnIdle acts)
    (hy : x.run acts=.ok y) : y.Sane ∧ y.rn.raft.core.Paced own := by
  have hstart : x.Sane ∧ x.rn.raft.core.Paced own := by
    refine ⟨hx.sane.1,paced_of_not ?_⟩
    change x.rn.raft.state≠_
    rw [hx.follower]
    nofun
  have hall : x.Along (fun x a => x.Fits a ∧ (own → x.OwnIdle a)) acts := by
    by_cases ho : own
    · have hboth := hacts.and (hown ho)
      simpa [ho] using hboth
    · simpa [ho] using hacts
  refine run_induct (I := fun x => x.Sane ∧ x.rn.raft.core.Paced own) ?_ hstart hall hy
  rintro x a x' ⟨hs,hp⟩ ⟨hf,hidle⟩ h
  exact ⟨(hs.does (P := fun _ _ => True) hf (fun _ _ _ _ _ _ => trivial) (act_does h)).1,
    paced_act hs hf hidle hp h⟩

/-- No act fails in the flow control. -/
theorem act_flow (x : Session) (hf : x.Fits a) : Quiet false (x.act a) := by
  have htame := tame_flow (fun _ => True) x.rn.raft.core
  cases a with
  | step m =>
    refine Quiet.andThen (Quiet.andThen ?_ (fun _ => avoids_ok _)) (fun _ => avoids_ok _)
    exact Raft.step_quiet htame (fun _ => trivial) hf.stamped
  | tick =>
    exact ((Raft.tick_quiet htame).andThen (fun _ => avoids_ok _)).andThen (fun _ => avoids_ok _)
  | applyConfChange cc =>
    exact ((Raft.applyConfChange_quiet _ cc).andThen (fun _ => avoids_ok _)).andThen
      (fun _ => avoids_ok _)
  | ready =>
    dsimp only [act]
    split
    · exact avoids_ok _
    · exact (((RaftLog.nextEnts_quiet _).andThen (fun _ => avoids_ok _)).andThen
        (fun _ => avoids_ok _)).andThen (fun _ => avoids_ok _)
  | save =>
    dsimp only [act]
    split <;> exact avoids_ok _
  | append =>
    dsimp only [act]
    split
    · exact (MemoryStorage.append_quiet _ _).andThen (fun _ => avoids_ok _)
    · exact avoids_ok _
  | compact i =>
    refine Quiet.andThen ?_ (fun res => ?_)
    · unfold MemoryStorage.compact
      dsimp only
      refine Avoids.ite (avoids_ok _) (Avoids.ite (by simp [Panic.fault]) ?_)
      split
      · simp [Panic.fault]
      · exact avoids_ok _
    · cases res <;> exact avoids_ok _
  | advance =>
    dsimp only [act]
    split
    · exact ((Raft.advance_quiet htame).andThen (fun _ => avoids_ok _)).andThen (fun _ => avoids_ok _)
    · exact avoids_ok _

/-- In every state of a leader the window of a peer is in order, and so is its own one unless
it has appended to its log while something was in flight to itself. The flow control never
fails. -/
theorem run_windows (hx : x.Start) (hacts : x.Along Fits acts) (hy : x.run acts=.ok y)
    (hlead : y.rn.raft.state=.stateLeader) :
    (∀ id pr, y.rn.raft.prs.progress.get? id=some pr →
      (id=y.rn.raft.id → x.Along OwnIdle acts) →
      (pr.state=.stateReplicate → pr.matchIndex<pr.next ∧ pr.inflights.window.Pairwise (·<·) ∧
        (∀ v ∈ pr.inflights.window, pr.matchIndex<v ∧ v<pr.next) ∧
        pr.inflights.window.length≤y.rn.raft.prs.maxInflight) ∧
      (pr.state≠.stateReplicate → pr.inflights.window=[])) ∧
    ∀ a, y.Fits a → y.act a≠.error .addIntoFullInflights ∧
      y.act a≠.error .unhandledProgressState := by
  refine ⟨fun id pr hget hown => ?_,fun a hf => ?_⟩
  · obtain ⟨-,hp⟩ := run_paced hx hacts hown hy
    have hpr := hp hlead id pr (fun he => he) hget
    exact ⟨fun hs => ⟨hpr.ahead hs,hpr.ascending,hpr.within,hpr.length_le⟩,hpr.idle⟩
  · have hq := y.act_flow hf
    exact ⟨fun he => Bool.noConfusion (hq _ he),fun he => Bool.noConfusion (hq _ he)⟩

end Session

namespace Session

section

local instance windowsWire : Raftpb := Wire.small

/-- One of two voters. -/
def pairConfig : Config where
  id := 1
  electionTick := 10
  heartbeatTick := 1
  storage := ⟨{},{ confState := { voters := [1,2] } },[default],default_ne_nil⟩
  maxInflightMsgs := 256

def pair : Except Panic Session := do
  let rn ← RawNode.newRawNode pairConfig []
  .ok { rn := rn }

theorem pair_start {x : Session} (h : pair=.ok x) : x.Start := by
  obtain ⟨rn,hrn,h⟩ := bind_eq_ok.mp h
  cases h
  exact .fresh ⟨by decide,by decide⟩ hrn

/-- Node 1 is elected and takes two proposals. -/
def elected : List Act :=
  [.step { type := .msgHup, toId := 1 },
  .step { type := .msgVoteResp, toId := 1, fromId := 2, term := 1 },
  .step { type := .msgProp, toId := 1, fromId := 1, entries := [default] },
  .step { type := .msgProp, toId := 1, fromId := 1, entries := [default] }]

/-- The leader is removed and added again, which leaves it with a progress of its own that
has to be probed. It then hears from itself, and takes another proposal. -/
def readded : List Act :=
  [.applyConfChange { changes := [⟨.removeNode,1⟩] },
  .applyConfChange { changes := [⟨.addNode,1⟩] },
  .step { type := .msgAppResp, toId := 1, fromId := 1, term := 1, index := 1 },
  .step { type := .msgProp, toId := 1, fromId := 1, entries := [default] }]

/-- The leader has acknowledged what is still in flight to itself. -/
theorem run_windows_readded : ∃ x y pr, pair=.ok x ∧ x.Start ∧
    x.Along Fits (elected++readded) ∧ x.run (elected++readded)=.ok y ∧
    y.rn.raft.state=.stateLeader ∧ y.rn.raft.prs.progress.get? 1=some pr ∧
    pr.state=.stateReplicate ∧ pr.matchIndex=4 ∧ pr.inflights.window=[2,3] :=
  ⟨_,_,_,rfl,pair_start rfl,by decide +kernel,rfl,by decide +kernel,rfl,by decide +kernel,
    by decide +kernel,by decide +kernel⟩

/-- The other voter has acknowledged the first entry, and the next two are on their way. -/
def acknowledged : List Act :=
  elected++[.step { type := .msgAppResp, toId := 1, fromId := 2, term := 1, index := 1 }]

theorem run_windows_acknowledged : ∃ x y pr own, pair=.ok x ∧ x.run acknowledged=.ok y ∧
    y.rn.raft.prs.progress.get? 2=some pr ∧ pr.inflights.window=[2,3] ∧ pr.matchIndex<pr.next ∧
    (∀ v ∈ pr.inflights.window, pr.matchIndex<v ∧ v<pr.next) ∧
    y.rn.raft.prs.progress.get? 1=some own ∧ own.matchIndex<own.next ∧
    y.act .tick≠.error .addIntoFullInflights := by
  obtain ⟨x,y,pr,own,hx,hacts,hidle,hy,hlead,hid,hget,hs,hw,hget1,hs1⟩ : ∃ x y pr own,
      pair=.ok x ∧ x.Along Fits acknowledged ∧ x.Along OwnIdle acknowledged ∧
      x.run acknowledged=.ok y ∧ y.rn.raft.state=.stateLeader ∧ y.rn.raft.id=1 ∧
      y.rn.raft.prs.progress.get? 2=some pr ∧ pr.state=.stateReplicate ∧
      pr.inflights.window=[2,3] ∧
      y.rn.raft.prs.progress.get? 1=some own ∧ own.state=.stateReplicate :=
    ⟨_,_,_,_,rfl,by decide +kernel,by decide +kernel,rfl,by decide +kernel,by decide +kernel,rfl,
      by decide +kernel,by decide +kernel,rfl,by decide +kernel⟩
  obtain ⟨hpeers,hquiet⟩ := run_windows (pair_start hx) hacts hy hlead
  obtain ⟨hahead,-,hwithin,-⟩ := (hpeers 2 pr hget (fun he => by omega)).1 hs
  obtain ⟨hown,-⟩ := (hpeers 1 own hget1 (fun _ => hidle)).1 hs1
  exact ⟨x,y,pr,own,hx,hy,hget,hw,hahead,hwithin,hget1,hown,(hquiet .tick trivial).1⟩

end

end Session

end RaftTesting
