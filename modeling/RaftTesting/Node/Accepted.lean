import RaftTesting.Node.Members
import RaftTesting.Node.Pending
import RaftTesting.Node.Windows

namespace RaftTesting

/-- What a configuration says of its members follows from their roles in it. -/
theorem Tracked.Sound.role_eq {t t' : Tracked} (h : t.Sound) (h' : t'.Sound) (hc : t'.cfg=t.cfg)
    (id : Nat) : t'.role id=t.role id := by
  have hdetermined : ∀ r r' : Role, r.ok=true → r'.ok=true → r'.incoming=r.incoming →
      r'.outgoing=r.outgoing → r'.learner=r.learner → r'.tracked=r.tracked := by
    intro r r' hr hr' hi ho hl
    simp only [Role.ok,Bool.and_eq_true,decide_eq_true_eq] at hr hr'
    rw [hr.1.1,hr'.1.1,hi,ho,hl]
  have htracked : (t'.role id).tracked=(t.role id).tracked := by
    refine hdetermined _ _ (h.ok id) (h'.ok id) ?_ ?_ ?_ <;> unfold Tracked.role <;> rw [hc]
  unfold Tracked.role at htracked ⊢
  dsimp only at htracked
  rw [hc,htracked]

namespace Raft

open RaftTesting.Core

variable [Raftpb] {r r' : Raft} {m : Message}

omit [Raftpb] in
/-- A leader lets through what wants to leave a joint configuration in one, and what does not
outside of one. -/
theorem refusesConfChange_false {cc : ConfChangeV2} (h : r.refusesConfChange cc=false) :
    r.prs.config.joint=cc.changes.isEmpty := by
  unfold refusesConfChange at h
  dsimp only at h
  unfold TrackerConfig.joint
  cases hj : decide (0<MajorityConfig.len r.prs.config.voters.outgoing) <;>
    cases he : cc.changes.isEmpty <;> simp [hj,he] at h ⊢

theorem screenEntries_accepts {i k : Nat} {es es' : List Entry} {e e' : Entry} {cc : ConfChangeV2}
    (h : r.screenEntries i es=.ok (r',es')) (he : es[k]?=some e)
    (hcc : confChangeOf e=.ok (some cc)) (he' : es'[k]?=some e') (hconf : e'.isConf=true) :
    r.prs.config.joint=cc.changes.isEmpty := by
  induction es generalizing r i k es' with
  | nil => cases he
  | cons a es ih =>
    obtain ⟨⟨r1,b⟩,h1,h⟩ := bind_eq_ok.mp h
    obtain ⟨⟨r2,es2⟩,h2,h⟩ := bind_eq_ok.mp h
    cases h
    obtain ⟨change,hchange,h1⟩ := bind_eq_ok.mp h1
    cases k with
    | zero =>
      cases he
      cases he'
      cases hchange.symm.trans hcc
      dsimp only at h1
      split at h1
      · -- a refused change has become an empty entry
        cases h1
        cases hconf
      · rename_i hno
        exact refusesConfChange_false (Bool.eq_false_iff.mpr hno)
    | succ k =>
      have hprs : r1.prs=r.prs := by
        cases change with
        | none =>
          cases h1
          rfl
        | some cc' =>
          dsimp only at h1
          split at h1 <;> cases h1 <;> rfl
      rw [← hprs]
      exact ih h2 he he'

/-- A proposal leaves the log as it is, or adds its screened entries. -/
theorem leaderProp_adds {err : Option StepErr} (hlead : r.state=.stateLeader)
    (h : r.leaderProp m=.ok (r',err)) : r'.raftLog=r.raftLog ∨
      ∃ r1 es l, r.screenEntries 0 m.entries=.ok (r1,es) ∧
        r.raftLog.append (stampEntries r.term r.raftLog.lastIndex es)=.ok l ∧
        ∀ i, r'.raftLog.entryAt i=l.entryAt i := by
  unfold leaderProp at h
  split at h
  · cases h
  split at h
  · cases h
    exact .inl rfl
  split at h
  · cases h
    exact .inl rfl
  obtain ⟨⟨r1,es⟩,hscr,h⟩ := bind_eq_ok.mp h
  obtain ⟨⟨r2,accepted⟩,happ,h⟩ := bind_eq_ok.mp h
  obtain ⟨hr1,-⟩ := screenEntries_spec hscr
  have hlog : r1.raftLog=r.raftLog := by rw [hr1]
  have hterm : r1.term=r.term := by rw [hr1]
  have hsame : r'.raftLog=r2.raftLog := by
    dsimp only at h
    split at h
    · cases h
      rfl
    · obtain ⟨r3,hb,h⟩ := bind_eq_ok.mp h
      cases h
      have hl2 : r2.state=.stateLeader := by
        rw [(appendEntry_same happ).2,hr1]
        exact hlead
      exact (bcastAppend_sent (S := fun _ => False) hl2 hb).sends.frame.raftLog
  rw [hsame]
  rcases appendEntry_spec happ with ⟨-,rfl,-⟩ | ⟨-,-,l,pr,changed,hl,-,hc⟩
  · exact .inl hlog
  · obtain ⟨k,rfl⟩ := maybeCommit_eq hc
    rw [hlog,hterm] at hl
    exact .inr ⟨r1,es,l,hscr,hl,fun i => rfl⟩

end Raft

namespace Session

open LogSession RaftTesting.Core

variable [Raftpb] {x y y' z : Session} {acts : List Act} {m : Message} {k : Nat} {e e' : Entry}
  {cc : ConfChangeV2}

/-- What is known once a leader has added a configuration entry of a proposal: no entry before
it that is not applied yet changes the configuration, and the change suits the configuration. -/
theorem accepted_spec (hf : y.Firm) (hs : y.Sealed) (hlead : y.rn.raft.state=.stateLeader)
    (hprop : m.type=.msgProp) (hm : m.Fine ∧ m.Anchored ∧ m.Ranked)
    (hact : y.act (.step m)=.ok y') (he : m.entries[k]?=some e)
    (hcc : Raft.confChangeOf e=.ok (some cc))
    (hadded : y'.raftLog.entryAt (y.raftLog.lastIndex+k+1)=some e') (hconf : e'.isConf=true) :
    y.rn.raft.prs.config.joint=cc.changes.isEmpty ∧ ∀ i b, y.raftLog.applied < i →
      i≤y.raftLog.lastIndex+k → y'.raftLog.entryAt i=some b → b.isConf=false := by
  have hnone := hf.leader_vacant hlead
  obtain ⟨⟨rn,err⟩,h1,hact⟩ := bind_eq_ok.mp hact
  cases hact
  obtain ⟨⟨r,err'⟩,hr,h1⟩ := bind_eq_ok.mp h1
  cases h1
  -- the entry is a new one
  have hpast : r.raftLog≠y.raftLog := by
    intro hlog
    change r.raftLog.entryAt _=some e' at hadded
    rw [hlog] at hadded
    have := RaftLog.entryAt_within hnone hadded
    omega
  obtain ⟨-,-,hleader⟩ | rfl | ⟨-,hlog⟩ := Raft.step_prop hprop hr
  · obtain ⟨hterm,hstate⟩ := Raft.leaderProp_same hlead hleader
    rcases Raft.leaderProp_adds hlead hleader with hlog | ⟨r1,es,l,hscr,hl,hat⟩
    · exact absurd hlog hpast
    · refine ⟨?_,fun i b hlow hhigh hb => ?_⟩
      · -- the entry that was added is the one that has been screened
        have hadded : l.entryAt (y.raftLog.lastIndex+k+1)=some e' := (hat _).symm.trans hadded
        obtain ⟨-,habove⟩ := Core.Firm.appended (c := y.rn.raft.core) hf hlead hl
        obtain ⟨-,e0,he0,hc0⟩ := habove _ e' (by change y.raftLog.lastIndex<_; omega) hadded
        have hk : y.raftLog.lastIndex+k+1-y.rn.raft.core.raftLog.lastIndex-1=k := by
          change y.raftLog.lastIndex+k+1-y.raftLog.lastIndex-1=k
          omega
        rw [hk] at he0
        exact Raft.screenEntries_accepts hscr he hcc he0 (hc0.symm.trans hconf)
      · have hmoves : Moves (fun m => m.Fine ∧ m.Anchored ∧ m.Ranked) y.rn.raft.core r.core :=
          Raft.step_moves (fun _ => hm) hm.1.stamped hr
        have hgrew := (Sealed.moves hf hs hmoves).2 hlead hstate hterm
        rw [Bool.eq_false_iff]
        intro hbc
        have hle := hgrew.conf _ e' (by change y.raftLog.lastIndex<_; omega) hadded hconf i b
          (by omega) hb hbc
        have happ : r.raftLog.applied=y.raftLog.applied := hmoves.fixed.2
        change i≤r.raftLog.applied at hle
        omega
  · exact absurd rfl hpast
  · exact absurd hlog hpast

/-- A change that a leader has accepted can be applied by whoever has applied the log before it,
exactly if it leaves a joint configuration, or makes changes that leave a voter. C tells what
the entries of the log make of the configuration. -/
theorem run_applicable {C : Nat → TrackerConfig} {x₀ : Session} {acts₀ : List Act}
    (hx : x.Start) (hfits : x.Along Fits acts) (hanch : x.Along Anchored acts)
    (hrank : x.Along Ranked acts) (hy : x.run acts=.ok y) (hlead : y.rn.raft.state=.stateLeader)
    (hprop : m.type=.msgProp) (hm : m.Fine ∧ m.Anchored ∧ m.Ranked)
    (hact : y.act (.step m)=.ok y') (he : m.entries[k]?=some e)
    (hcc : Raft.confChangeOf e=.ok (some cc))
    (hknown : ∀ s∈cc.changes, ∀ code, s.type≠.unknown code)
    (hadded : y'.raftLog.entryAt (y.raftLog.lastIndex+k+1)=some e') (hconf : e'.isConf=true)
    (hC : ∀ i, y.raftLog.applied ≤ i → i<y.raftLog.lastIndex+k →
      (∀ b, y'.raftLog.entryAt (i+1)=some b → b.isConf=false) → C (i+1)=C i)
    (hown : y.rn.raft.prs.config=C y.raftLog.applied)
    (hx₀ : x₀.Start) (hfits₀ : x₀.Along Fits acts₀) (hz : x₀.run acts₀=.ok z)
    (hsame : z.rn.raft.prs.config=C (y.raftLog.lastIndex+k)) :
    (∃ t, Changer.change ⟨z.rn.raft.prs,z.raftLog.lastIndex⟩ cc=.ok t) ↔
      Raftpb.leaveJoint cc=true ∨ cc.changes≠[] ∧
        ∃ id, (Role.replay id cc.changes (y.rn.raft.core.tracked.role id)).incoming=true := by
  obtain ⟨hfirm,hseal⟩ := run_sealed hx hfits hanch hrank hy
  have hformed := run_formed hx hfits hy
  have hformed₀ := run_formed hx₀ hfits₀ hz
  obtain ⟨hjoint,hclear⟩ := accepted_spec hfirm hseal hlead hprop hm hact he hcc hadded hconf
  have happlied : y.raftLog.applied≤y.raftLog.lastIndex := Core.Firm.applied_le hfirm hlead
  have hconst : ∀ n, y.raftLog.applied+n≤y.raftLog.lastIndex+k →
      C (y.raftLog.applied+n)=C y.raftLog.applied := by
    intro n hn
    induction n with
    | zero => rfl
    | succ n ih =>
      have hstep := hC (y.raftLog.applied+n) (by omega) (by omega)
        (fun b hb => hclear _ b (by omega) (by omega) hb)
      exact hstep.trans (ih (by omega))
  have hcfg : z.rn.raft.prs.config=y.rn.raft.prs.config := by
    have hlast := hconst (y.raftLog.lastIndex+k-y.raftLog.applied) (by omega)
    rw [Nat.add_sub_cancel' (by omega)] at hlast
    rw [hsame,hlast,hown]
  have hroles : ∀ id, z.rn.raft.core.tracked.role id=y.rn.raft.core.tracked.role id :=
    hformed.formed.sound.role_eq hformed₀.formed.sound hcfg
  have hvoters := hformed.voters hlead
  have hiff := Changer.change_iff (c := ⟨z.rn.raft.prs,z.raftLog.lastIndex⟩)
    hformed₀.formed (by rw [hcfg]; exact hvoters) (fun s hs => .inr (hknown s hs))
    (by rw [hcfg]; exact hjoint)
  have htracked : Changer.tracked ⟨z.rn.raft.prs,z.raftLog.lastIndex⟩=z.rn.raft.core.tracked := rfl
  rw [hiff,htracked]
  simp only [hroles]

end Session

namespace Session

section

local instance acceptedWire : Raftpb := Wire.small

/-- The only voter is elected and applies its empty entry. -/
def installed : List Act :=
  [.step { type := .msgHup, toId := 1 },.ready,.save,.append,.advance]

/-- The change that removes the only voter. -/
def removal : Entry := { (default : Entry) with
  type := .entryConfChange
  data := Wire.marshalConfChange { type := .removeNode, nodeID := 1 } }

/-- The leader takes the proposal to remove it, and its application gets to apply it. -/
def emptied : List Act :=
  installed++[.step (Raft.proposal removal),.ready,.save,.append]

theorem emptied_panics : ∃ x y e cc, solo=.ok x ∧ x.Start ∧ x.Along Fits emptied ∧
    x.Along Anchored emptied ∧ x.Along Ranked emptied ∧ x.run emptied=.ok y ∧
    y.rn.raft.state=.stateLeader ∧ y.due=[e] ∧ y.raftLog.entryAt e.index=some e ∧
    e.index=y.raftLog.applied+1 ∧ Raft.confChangeOf e=.ok (some cc) ∧
    y.act (.applyConfChange cc)=.error (.applyConfChange .removedAllVoters) :=
  ⟨_,_,_,_,rfl,solo_start rfl,by decide +kernel,by decide +kernel,by decide +kernel,rfl,
    by decide +kernel,rfl,by decide +kernel,by decide +kernel,rfl,rfl⟩

/-- A second voter can be added. -/
theorem run_applicable_addition : ∃ x y y' t, solo=.ok x ∧ x.run installed=.ok y ∧
    y.act (.step (Raft.proposal Raft.addition))=.ok y' ∧
    Changer.change ⟨y.rn.raft.prs,y.raftLog.lastIndex⟩ { changes := [⟨.addNode,2⟩] }=.ok t := by
  obtain ⟨x,y,y',e',hx,hfits,hanch,hrank,hy,hlead,hact,hadded,hconf,hrole⟩ : ∃ x y y' e',
      solo=.ok x ∧ x.Along Fits installed ∧ x.Along Anchored installed ∧
      x.Along Ranked installed ∧ x.run installed=.ok y ∧ y.rn.raft.state=.stateLeader ∧
      y.act (.step (Raft.proposal Raft.addition))=.ok y' ∧
      y'.raftLog.entryAt (y.raftLog.lastIndex+0+1)=some e' ∧ e'.isConf=true ∧
      (Role.replay 2 [⟨.addNode,2⟩] (y.rn.raft.core.tracked.role 2)).incoming=true :=
    ⟨_,_,_,_,rfl,by decide +kernel,by decide +kernel,by decide +kernel,rfl,by decide +kernel,rfl,
      rfl,by decide +kernel,by decide +kernel⟩
  have hknown : ∀ s∈[(⟨.addNode,2⟩ : ConfChangeSingle)], ∀ code, s.type≠.unknown code := by
    intro s hs code
    rw [List.mem_singleton.mp hs]
    nofun
  have hm : (Raft.proposal Raft.addition).Fine ∧ (Raft.proposal Raft.addition).Anchored ∧
      (Raft.proposal Raft.addition).Ranked := by decide
  obtain ⟨t,ht⟩ := (run_applicable (C := fun _ => y.rn.raft.prs.config) (k := 0)
    (e := Raft.addition) (solo_start hx) hfits hanch hrank hy hlead rfl hm hact rfl rfl hknown
    hadded hconf (fun _ _ _ _ => rfl) rfl (solo_start hx) hfits hy rfl).mpr
    (.inr ⟨List.cons_ne_nil _ _,2,hrole⟩)
  exact ⟨x,y,y',t,hx,hy,hact,ht⟩

end

end Session

end RaftTesting
