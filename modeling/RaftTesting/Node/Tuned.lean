import RaftTesting.Log.Held
import RaftTesting.Node.Start
import RaftTesting.Node.Touch
import RaftTesting.Node.Windows

namespace RaftTesting

theorem Config.validate_ticks {c c' : Config} (h : c.validate=some c') :
    0<c'.heartbeatTick ∧ c'.heartbeatTick<c'.electionTick := by
  obtain ⟨-,hbeat,hticks,hc'⟩ := c.validate_eq h
  rw [hc']
  exact ⟨hbeat,hticks⟩

namespace Raft

/-- What a node keeps of its configuration: its limits, and an election timeout that is drawn
from the range that the configuration gives. -/
structure Tuned [Raftpb] (c : Config) (r : Raft) : Prop where
  maxMsgSize : r.maxMsgSize=c.maxSizePerMsg
  maxNextEntsSize : r.raftLog.maxNextEntsSize=c.maxCommittedSizePerReady
  electionTimeout : r.electionTimeout=c.electionTick
  heartbeatTimeout : r.heartbeatTimeout=c.heartbeatTick
  checkQuorum : r.checkQuorum=c.checkQuorum
  preVote : r.preVote=c.preVote
  low : c.electionTick≤r.randomizedElectionTimeout
  high : r.randomizedElectionTimeout<2*c.electionTick
  msgs : ∀ m ∈ r.msgs, m.type=.msgApp → Within c.maxSizePerMsg m.entries

section

variable [Raftpb] {M : Message → Prop} {c : Config} {r r' : Raft}

/-- The timeout is drawn anew. -/
theorem Tuned.reset (hpos : 0<c.electionTick) (h : r.Tuned c) (term : Nat) :
    (r.reset term).Tuned c := by
  have hrand : (r.reset term).randomizedElectionTimeout=
      r.electionTimeout+r.draws.headD 0%r.electionTimeout := rfl
  rw [h.electionTimeout] at hrand
  have hlt : r.draws.headD 0%c.electionTick<c.electionTick := Nat.mod_lt _ hpos
  exact { h with low := by omega, high := by omega }

theorem Says.within {n : Message} (h : r.Tuned c) (hn : Says M r n) (ht : n.type=.msgApp) :
    Within c.maxSizePerMsg n.entries := by
  unfold Says at hn
  rw [ht] at hn
  obtain ⟨-,-,-,i,hents⟩ := hn
  rw [h.maxMsgSize] at hents
  exact (RaftLog.entries_holds (P := fun _ => True) ⟨fun _ _ => trivial,fun _ _ => trivial⟩ hents).2

theorem HostTouch.tuned (hpos : 0<c.electionTick) (hr : r.Tuned c) (h : HostTouch M r r') :
    r'.Tuned c := by
  cases h with
  | touch h =>
    cases h with
    | post h =>
      cases h with
      | say hn =>
        refine { hr with msgs := fun m hm ht => ?_ }
        rcases List.mem_append.mp hm with hm | hm
        · exact hr.msgs m hm ht
        · cases List.mem_singleton.mp hm
          exact hn.within hr ht
      | track | reads => exact { hr with }
    | @follow term _ _ _ => exact { hr.reset hpos term with }
    | stand => exact { hr.reset hpos (r.term+1) with }
    | rise => exact { hr.reset hpos r.term with }
    | grow _ _ hl =>
      have hmax := RaftLog.append_maxNextEntsSize hl
      exact { hr with maxNextEntsSize := hmax.trans hr.maxNextEntsSize }
    | store _ _ _ hl =>
      have hmax := RaftLog.maybeAppend_maxNextEntsSize hl
      exact { hr with maxNextEntsSize := hmax.trans hr.maxNextEntsSize }
    | preStand _ _ hms =>
      refine { hr with msgs := fun m hm ht => ?_ }
      rcases List.mem_append.mp hm with hm | hm
      · exact hr.msgs m hm ht
      · cases (hms m hm).1.symm.trans ht
    | poll | pend | release | commit | hear | vote | restore | aim | abort =>
      exact { hr with }
  | clock | install => exact { hr with }
  | log _ _ hl => exact { hr with maxNextEntsSize := hl.trans hr.maxNextEntsSize }
  | flush => exact { hr with msgs := fun _ hm => absurd hm List.not_mem_nil }

theorem HostTouches.tuned (hpos : 0<c.electionTick) (hr : r.Tuned c) (h : HostTouches M r r') :
    r'.Tuned c := by
  induction h with
  | refl => exact hr
  | tail _ h ih => exact h.tuned hpos ih

/-- A node starts with what its configuration says. -/
theorem newRaft_tuned {cfg : Config} {draws : List Nat} (hc : cfg.validate=some c)
    (h : newRaft cfg draws=.ok r) : r.Tuned c := by
  obtain ⟨c',t,applied,hc',-,-,-,-,-,rfl⟩ := newRaft_eq h
  cases hc.symm.trans hc'
  have hpos := Config.validate_ticks hc
  have hrand : (begun c draws t applied).randomizedElectionTimeout=
      c.electionTick+draws.headD 0%c.electionTick := rfl
  have hlt : draws.headD 0%c.electionTick<c.electionTick := Nat.mod_lt _ (by omega)
  exact ⟨rfl,rfl,rfl,rfl,rfl,rfl,by omega,by omega,fun m hm => (by cases hm)⟩

end

end Raft

namespace Session

/-- What the application has been given is within the limits of the configuration. -/
structure Tuned [Raftpb] (c : Config) (x : Session) : Prop where
  node : x.rn.raft.Tuned c
  messages : ∀ w ∈ x.handed, ∀ m ∈ w.ready.messages, m.type=.msgApp →
    Within c.maxSizePerMsg m.entries
  committed : ∀ w ∈ x.handed, Within c.maxCommittedSizePerReady w.ready.committedEntries

section

variable [Raftpb] {c cfg : Config} {x x' y : Session} {a : Act} {acts : List Act}

theorem Tuned.act (hpos : 0<c.electionTick) (hx : x.Tuned c) (hfits : x.Fits a)
    (h : x.act a=.ok x') : x'.Tuned c := by
  have hst : ∀ m, a=.step m → m.Stamped := by
    rintro m rfl
    exact hfits.stamped
  have hnode := ((act_does h).effect.touches hst).tuned hpos hx.node
  cases act_does h with
  | stay => exact hx
  | step | tick | applyConfChange | save | append | compact | advance =>
    exact ⟨hnode,hx.messages,hx.committed⟩
  | ready _ hrd =>
    obtain ⟨ents,hents,hrd⟩ := bind_eq_ok.mp hrd
    cases hrd
    refine ⟨hnode,fun w hw => ?_,fun w hw => ?_⟩
    · rcases List.mem_append.mp hw with hw | hw
      · exact hx.messages w hw
      · cases List.mem_singleton.mp hw
        exact hx.node.msgs
    · rcases List.mem_append.mp hw with hw | hw
      · exact hx.committed w hw
      · cases List.mem_singleton.mp hw
        have hwithin := (RaftLog.nextEnts_holds (P := fun _ => True)
          ⟨fun _ _ => trivial,fun _ _ => trivial⟩ hents).2
        rw [hx.node.maxNextEntsSize] at hwithin
        exact hwithin

theorem run_tuned {draws : List Nat} {rn : RawNode} (hc : cfg.validate=some c)
    (hrn : RawNode.newRawNode cfg draws=.ok rn) (hfits : Along Fits { rn := rn } acts)
    (hx : run { rn := rn } acts=.ok x) : x.Tuned c := by
  obtain ⟨r,hr,hrn⟩ := bind_eq_ok.mp hrn
  cases hrn
  have hpos := Config.validate_ticks hc
  refine run_induct (I := fun x => x.Tuned c) (fun _ _ _ h hP hact => h.act (by omega) hP hact)
    ⟨Raft.newRaft_tuned hc hr,fun _ hw => ?_,fun _ hw => ?_⟩ hfits hx
  · cases hw
  · cases hw

/-- Whatever a node is given and however it is driven, the entries of every append it sends and
of every Ready it hands out are within the limits of its configuration, or a single one; and it
waits for at least one election timeout and less than two before it campaigns. -/
theorem run_limits {draws : List Nat} {rn : RawNode} (hc : cfg.validate=some c)
    (hrn : RawNode.newRawNode cfg draws=.ok rn) (hfits : Along Fits { rn := rn } acts)
    (hx : run { rn := rn } acts=.ok x) :
    (∀ w ∈ x.handed, Within c.maxCommittedSizePerReady w.ready.committedEntries ∧
      ∀ m ∈ w.ready.messages, m.type=.msgApp → Within c.maxSizePerMsg m.entries) ∧
    c.electionTick≤x.rn.raft.randomizedElectionTimeout ∧
    x.rn.raft.randomizedElectionTimeout<2*c.electionTick := by
  have htuned := run_tuned hc hrn hfits hx
  exact ⟨fun w hw => ⟨htuned.committed w hw,htuned.messages w hw⟩,htuned.node.low,htuned.node.high⟩

end

section

local instance limitsWire : Raftpb := Wire.small

/-- Messages of at most two small entries. -/
def narrow : Config := { pairConfig with maxSizePerMsg := 12 }

/-- Node 1 is elected and has four entries when the other voter acknowledges the first. -/
def caughtUp : List Act :=
  elected++[.step { type := .msgProp, toId := 1, fromId := 1, entries := [default] },
    .step { type := .msgAppResp, toId := 1, fromId := 2, term := 1, index := 1 },.ready]

theorem run_limits_narrow : ∃ (x : Session) (w : Work) (m : Message), w ∈ x.handed ∧
    m ∈ w.ready.messages ∧ m.entries.length=2 ∧ encodedSize m.entries=12 ∧
    Within 12 m.entries ∧ 10≤x.rn.raft.randomizedElectionTimeout := by
  obtain ⟨c,rn,x,hc,hsize,helect,hrn,hfits,hx,w,hw,m,hm,htype,hlen,hsum⟩ : ∃ c rn x,
      narrow.validate=some c ∧ c.maxSizePerMsg=12 ∧ c.electionTick=10 ∧
      RawNode.newRawNode narrow []=.ok rn ∧ Along Fits { rn := rn } caughtUp ∧
      run { rn := rn } caughtUp=.ok x ∧ ∃ w ∈ x.handed, ∃ m ∈ w.ready.messages,
        m.type=.msgApp ∧ m.entries.length=2 ∧ encodedSize m.entries=12 :=
    ⟨_,_,_,rfl,rfl,rfl,rfl,by decide +kernel,rfl,by decide +kernel⟩
  obtain ⟨hhanded,hlow,-⟩ := run_limits hc hrn hfits hx
  have hwithin := (hhanded w hw).2 m hm htype
  rw [hsize] at hwithin
  exact ⟨x,w,m,hw,hm,hlen,hsum,hwithin,helect ▸ hlow⟩

end

end Session

end RaftTesting
