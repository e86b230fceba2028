import RaftTesting.Node.Delivery
import RaftTesting.Node.Members
import RaftTesting.Transition.Turn

namespace RaftTesting

namespace Raft

/-- A leadership transfer is under way on leaders only, to another voter. -/
def Targets (r : Raft) : Prop := r.leadTransferee≠noNode → r.state=.stateLeader ∧
  r.prs.config.voters.ids.contains r.leadTransferee=true ∧ r.leadTransferee≠r.id

/-- The change leaves a leader that it deprives of its vote with a target that has one. -/
def Keeps [Raftpb] (r : Raft) (cc : ConfChangeV2) : Prop :=
  ∀ t∈(Changer.change ⟨r.prs,r.raftLog.lastIndex⟩ cc).toOption, r.state=.stateLeader →
    r.leadTransferee≠noNode → r.Voteless t → t.cfg.voters.ids.contains r.leadTransferee=true

instance decidableKeeps [Raftpb] (r : Raft) (cc : ConfChangeV2) : Decidable (r.Keeps cc) :=
  inferInstanceAs (Decidable (∀ t∈Except.toOption _, r.state=.stateLeader →
    r.leadTransferee≠noNode → r.Voteless t → t.cfg.voters.ids.contains r.leadTransferee=true))

variable {A : List Entry → Prop} {r r' : Raft} {m : Message}

theorem Targets.of_none (h : r.leadTransferee=noNode) : r.Targets := fun hne => absurd h hne

/-- Nothing else of a node matters. -/
theorem Targets.same (h : r.Targets) (hlt : r'.leadTransferee=r.leadTransferee)
    (hs : r'.state=r.state) (hcfg : r'.prs.config=r.prs.config) (hid : r'.id=r.id) :
    r'.Targets := by
  unfold Targets
  rw [hlt,hs,hcfg,hid]
  exact h

theorem Targets.still (h : r.Targets) (hs : Still r r') : r'.Targets := by
  intro hne
  rw [hs.leadTransferee] at hne ⊢
  obtain ⟨hlead,hvoter,hother⟩ := h hne
  rw [hs.config hlead,hs.id]
  exact ⟨hs.lead.mpr hlead,hvoter,hother⟩

/-- A step that leaves a leader alone does not repair its target either. -/
theorem Still.targets (hs : Still r r') (hlead : r.state=.stateLeader) (h : r'.Targets) :
    r.Targets := by
  intro hne
  rw [← hs.leadTransferee] at hne ⊢
  obtain ⟨-,hvoter,hother⟩ := h hne
  rw [hs.config hlead] at hvoter
  rw [hs.id] at hother
  exact ⟨hlead,hvoter,hother⟩

/-- Who has a progress and is no learner has a vote. -/
theorem voter_of_tracked {id : Nat} {pr : Progress} (hr : r.core.Formed)
    (hget : r.prs.progress.get? id=some pr) (hpr : pr.isLearner=false) :
    r.prs.config.voters.ids.contains id=true := by
  have hok := hr.formed.sound.ok id
  have htracked : (r.core.tracked.role id).tracked=some false := by
    change (r.prs.progress.get? id).map _=_
    rw [hget,Option.map_some,hpr]
  have hvoter : ∀ role : Role, role.ok=true → role.tracked=some false →
      (role.incoming || role.outgoing)=true := by decide
  rw [JointConfig.contains_ids]
  exact hvoter _ hok htracked

theorem Targets.turn (h : r.Targets) (hr : r.core.Formed) (ht : Turn A r r') : r'.Targets := by
  cases ht with
  | still hs => exact h.still hs
  | abort hs => exact (Targets.of_none rfl).still hs
  | @aim t pr hlead hget hpr hne hs =>
    have haim : Targets { r with leadTransferee := t } := fun _ =>
      ⟨hlead,voter_of_tracked hr hget hpr,hne⟩
    exact haim.still hs
  | fresh hf => exact .of_none hf.leadTransferee
  | @grow es l _ _ _ _ hs =>
    have hgrown : (r.grown es l).Targets := h.same rfl rfl rfl rfl
    exact hgrown.still hs

section

variable [Raftpb]

/-- Only a change that takes the vote of a leader and that of its target may leave a target
without a vote. -/
theorem applyConfChange_targets {cc : ConfChangeV2} {cs : ConfState} (h : r.Targets)
    (hr : r.core.Formed) (happ : r.applyConfChange cc=.ok (r',cs)) : r'.Targets ↔ r.Keeps cc := by
  unfold applyConfChange at happ
  split at happ
  · cases happ
  · rename_i t ht
    have hkeeps : r.Keeps cc ↔ (r.state=.stateLeader → r.leadTransferee≠noNode → r.Voteless t →
        t.cfg.voters.ids.contains r.leadTransferee=true) := by
      unfold Keeps
      rw [ht]
      simp [Except.toOption]
    obtain ⟨-,hvoters⟩ := Changer.formed_change (c := ⟨r.prs,r.raftLog.lastIndex⟩) hr.formed ht
    obtain ⟨hquiet,hheed⟩ := switchToConfig_turn hvoters happ
    rw [hkeeps]
    by_cases hlead : r.state=.stateLeader
    · by_cases hvote : r.Voteless t
      · have hs := hquiet (.inr hvote)
        constructor
        · intro h' _ hne _
          exact (hs.targets hlead h' hne).2.1
        · intro hkeeps
          refine Targets.still (fun hne => ?_) hs
          exact ⟨hlead,hkeeps hlead hne hvote,(h hne).2.2⟩
      · refine ⟨fun _ _ _ hv => absurd hv hvote,fun _ => Targets.still ?_ (hheed hlead hvote)⟩
        intro hne
        change (r.installConfig t).keptTransferee≠noNode at hne
        change _ ∧ t.cfg.voters.ids.contains (r.installConfig t).keptTransferee=true ∧
          (r.installConfig t).keptTransferee≠r.id
        unfold keptTransferee at hne ⊢
        split at hne
        · rename_i hin
          rw [if_pos hin]
          exact ⟨hlead,hin,(h hne).2.2⟩
        · exact absurd rfl hne
    · refine ⟨fun _ hl => absurd hl hlead,fun _ => Targets.still ?_ (hquiet (.inl hlead))⟩
      exact fun hne => absurd (h hne).1 hlead

theorem advance_targets {rd : Ready} (h : r.Targets) (hr : r.core.Formed)
    (hadv : r.advance rd=.ok r') : r'.Targets := by
  obtain ⟨r1,h1,hadv⟩ := bind_eq_ok.mp hadv
  cases hadv
  have hred : (r.reduceUncommittedSize rd.committedEntries).Targets := h.same rfl rfl rfl rfl
  have h1' : r1.Targets := by
    rcases advanceApplied_turn h1 with ⟨-,rfl⟩ | ⟨-,l,-,ht⟩
    · exact hred
    · have hlog : ((r.reduceUncommittedSize rd.committedEntries).setLog l).Targets :=
        hred.same rfl rfl rfl rfl
      exact hlog.turn ⟨hr.formed,hr.voters⟩ ht
  exact h1'.same rfl rfl rfl rfl

end

end Raft

namespace Session

open Raft

variable [Raftpb] {x x' y : Session} {a : Act} {acts : List Act}

theorem Start.cleared (hx : x.Start) :
    x.rn.raft.leadTransferee=noNode ∧ x.rn.raft.uncommittedSize=0 := by
  cases hx with
  | fresh hms h =>
    obtain ⟨r,hr,h⟩ := bind_eq_ok.mp h
    cases h
    exact (newRaft_spec hr).2.2.2.2.2.2.2
  | boot hms h hboot =>
    obtain ⟨-,-,l,t,b,-,rfl⟩ := RawNode.bootstrap_spec hboot
    exact ⟨rfl,rfl⟩

/-- No configuration change takes the vote of the leader together with that of its target. -/
def Heeded (x : Session) : Act → Prop
  | .applyConfChange cc => x.rn.raft.Keeps cc
  | _ => True

instance decidableHeeded (x : Session) : (a : Act) → Decidable (x.Heeded a)
  | .applyConfChange cc => inferInstanceAs (Decidable (x.rn.raft.Keeps cc))
  | .step _ | .tick | .ready | .save | .append | .compact _ | .advance => .isTrue trivial

/-- The other acts need no heed. -/
theorem targets_does (h : x.rn.raft.Targets) (hx : x.Formed) (hd : x.Does a x')
    (ha : ∀ cc, a≠.applyConfChange cc) : x'.rn.raft.Targets := by
  cases hd with
  | stay => exact h
  | step hs => exact h.turn hx (step_turn hs)
  | tick ht => exact h.turn (A := fun _ => False) hx (tick_turn ht)
  | applyConfChange => exact absurd rfl (ha _)
  | ready => exact h.same rfl rfl rfl rfl
  | save => exact h.same rfl rfl rfl rfl
  | append => exact h.same rfl rfl rfl rfl
  | compact => exact h.same rfl rfl rfl rfl
  | advance _ _ hadv =>
    obtain ⟨r,hr,hadv⟩ := bind_eq_ok.mp hadv
    cases hadv
    exact advance_targets h hx hr

theorem targets_act (h : x.rn.raft.Targets) (hx : x.Formed) (hact : x.act a=.ok x') :
    x'.rn.raft.Targets ↔ x.Heeded a := by
  cases a with
  | applyConfChange cc =>
    obtain ⟨⟨rn,cs⟩,h1,hact⟩ := bind_eq_ok.mp hact
    cases hact
    obtain ⟨⟨r,cs'⟩,h2,h1⟩ := bind_eq_ok.mp h1
    cases h1
    exact applyConfChange_targets h hx h2
  | step | tick | ready | save | append | compact | advance =>
    exact ⟨fun _ => trivial,fun _ => targets_does h hx (act_does hact) nofun⟩

theorem run_targeted (hx : x.Start) (hfits : x.Along Fits acts) (hheed : x.Along Heeded acts)
    (hy : x.run acts=.ok y) : y.rn.raft.Targets ∧ y.Formed :=
  run_induct (I := fun x => x.rn.raft.Targets ∧ x.Formed)
    (fun _ _ _ h ha hact => ⟨(targets_act h.1 h.2 hact).mpr ha.2,h.2.act ha.1 hact⟩)
    ⟨.of_none hx.cleared.1,hx.formed⟩ (hfits.and hheed) hy

/-- As long as no configuration change takes the votes of a leader and of its target at once,
the target of a transfer is another voter of the node that leads. Such a change always breaks
it. -/
theorem run_targets (hx : x.Start) (hfits : x.Along Fits acts) (hheed : x.Along Heeded acts)
    (hy : x.run acts=.ok y) :
    y.rn.raft.Targets ∧ ∀ a y', y.act a=.ok y' → (y'.rn.raft.Targets ↔ y.Heeded a) := by
  obtain ⟨htargets,hformed⟩ := run_targeted hx hfits hheed hy
  exact ⟨htargets,fun a y' hact => targets_act htargets hformed hact⟩

end Session

namespace Session

section

local instance transferWire : Raftpb := Wire.joint

def leaverConfig : Config := { memberConfig with maxSizePerMsg := noLimit }

/-- Nodes 2 and 3 leave at once, through a joint configuration that is left by itself. -/
def twoLess : ConfChangeV2 := { changes := [⟨.removeNode,2⟩,⟨.removeNode,3⟩] }

def answered (type : MessageType) (fromId index : Nat) : Act :=
  .step { type := type, toId := 3, fromId := fromId, term := 1, index := index }

def acked (index : Nat) : List Act := [1,2].map (answered .msgAppResp · index)

def flush : List Act := [.ready,.save,.append,.advance]

/-- Node 3 is elected, its change is committed, handed out and applied, and so is the entry that
leaves the joint configuration but for being applied. Before that it is asked to hand its
leadership over to node 2. -/
def handing : List Act :=
  .step { type := .msgHup, toId := 3 }::flush++answered .msgVoteResp 2 0::flush++acked 1++
  .step { type := .msgProp, toId := 3, fromId := 3, entries := [{ (default : Entry) with
    type := .entryConfChangeV2, data := Wire.marshalConfChangeV2 twoLess }] }::flush++acked 2++
  [.ready,.save,.append,.applyConfChange twoLess,.advance,
  .tick,answered .msgHeartbeatResp 1 0,answered .msgHeartbeatResp 2 0]++flush++acked 3++
  [.step { type := .msgTransferLeader, toId := 3, fromId := 2 },.ready,.save,.append]

/-- The run, and the outcome of leaving the joint configuration. -/
theorem handing_run : passes (RawNode.newRawNode leaverConfig []) (fun rn =>
    decide (Along Fits { rn := rn } handing ∧ Along Heeded { rn := rn } handing) &&
    passes (run { rn := rn } handing) (fun y => y.rn.raft.leadTransferee=2 &&
      y.work.map (·.ready.committedEntries)=some [⟨1,3,.entryConfChangeV2,[]⟩] &&
      passes (y.act (.applyConfChange {})) (fun y' => y'.rn.raft.state=.stateLeader &&
        y'.rn.raft.leadTransferee=2 && !y'.rn.raft.prs.config.voters.ids.contains 2)))=true := by
  decide +kernel

theorem handing_outcome : ∃ x y y' : Session, x.Start ∧ x.Along Fits handing ∧
    x.Along Heeded handing ∧ x.run handing=.ok y ∧ y.rn.raft.leadTransferee=2 ∧
    y.work.map (·.ready.committedEntries)=some [⟨1,3,.entryConfChangeV2,[]⟩] ∧
    y.act (.applyConfChange {})=.ok y' ∧ y'.rn.raft.state=.stateLeader ∧
    y'.rn.raft.leadTransferee=2 ∧ y'.rn.raft.prs.config.voters.ids.contains 2=false := by
  obtain ⟨rn,hrn,h⟩ := passes_iff.mp handing_run
  obtain ⟨hacts,h⟩ := Bool.and_eq_true_iff.mp h
  obtain ⟨hfits,hheed⟩ := of_decide_eq_true hacts
  obtain ⟨y,hy,h⟩ := passes_iff.mp h
  obtain ⟨h,hleave⟩ := Bool.and_eq_true_iff.mp h
  obtain ⟨hlt,hwork⟩ := Bool.and_eq_true_iff.mp h
  obtain ⟨y',hact,h⟩ := passes_iff.mp hleave
  simp only [Bool.and_eq_true,decide_eq_true_eq,Bool.not_eq_true'] at h
  exact ⟨_,y,y',.fresh ⟨by decide,by decide⟩ hrn,hfits,hheed,hy,of_decide_eq_true hlt,
    of_decide_eq_true hwork,hact,h.1.1,h.1.2,h.2⟩

/-- When the joint configuration is left, the leader is none of the voters any more, and its
target is not one either. -/
theorem run_loses_target : ∃ x y y' : Session, x.Start ∧ x.Along Fits handing ∧
    x.run handing=.ok y ∧ y.rn.raft.Targets ∧
    y.work.map (·.ready.committedEntries)=some [⟨1,3,.entryConfChangeV2,[]⟩] ∧
    y.act (.applyConfChange {})=.ok y' ∧ y'.rn.raft.state=.stateLeader ∧
    y'.rn.raft.leadTransferee=2 ∧ y'.rn.raft.prs.config.voters.ids.contains 2=false ∧
    ¬y'.rn.raft.Targets := by
  obtain ⟨x,y,y',hx,hfits,hheed,hy,-,hwork,hact,hlead,hlt,hgone⟩ := handing_outcome
  refine ⟨x,y,y',hx,hfits,hy,(run_targeted hx hfits hheed hy).1,hwork,hact,hlead,hlt,hgone,?_⟩
  intro htargets
  have hne : y'.rn.raft.leadTransferee≠noNode := by
    rw [hlt]
    decide
  have hvoter := (htargets hne).2.1
  rw [hlt,hgone] at hvoter
  cases hvoter

/-- Up to there nothing is wrong. -/
theorem run_targets_handing : ∃ x y : Session, x.Start ∧ x.run handing=.ok y ∧
    y.rn.raft.leadTransferee=2 ∧ y.rn.raft.Targets := by
  obtain ⟨x,y,-,hx,hfits,hheed,hy,hlt,-⟩ := handing_outcome
  exact ⟨x,y,hx,hy,hlt,(run_targets hx hfits hheed hy).1⟩

end

end Session

end RaftTesting
