import RaftTesting.Cluster.Placed
import RaftTesting.Consensus.Reads
import RaftTesting.Transition.Reads

namespace RaftTesting

open Consensus

/-- A moment of a run, with a read request that is issued then: the history up to it, the
messages that were around, and an index that was committed in term. -/
structure Mark where
  hist : Hist Entry
  sent : Message → Prop
  ctx : Bytes
  term : Nat
  index : Nat

namespace Mark

structure Sound [Raftpb] (F : Founding) (B : Base Entry) (d : Mark) : Prop where
  hist : HistInv B d.hist
  governed : d.hist.Governed F.succession B
  reached : d.index≤d.hist.comm d.term
  led : ∀ m, d.sent m → m.type=.msgHeartbeatResp → (d.hist.lead m.term).isSome

/-- Nobody had acknowledged the context in term T. -/
def Clear (d : Mark) (T : Nat) (x : Bytes) : Prop :=
  x=[] ∨ ∀ m, d.sent m → m.type=.msgHeartbeatResp → m.term=T → m.context≠x

/-- What a message tells since then. -/
structure Tells (d : Mark) (m : Message) : Prop where
  beat : m.type=.msgHeartbeatResp → d.sent m ∨ d.hist.Behind m.term m.fromId
  resp : m.type=.msgReadIndexResp → m.firstData=.ok d.ctx → d.index ≤ m.index
  req : m.type=.msgReadIndex → m.term=0

theorem Tells.of_serves {d : Mark} {m : Message} (hm : m.type.serves=true → d.Tells m) :
    d.Tells m := by
  cases hs : m.type.serves with
  | true => exact hm hs
  | false =>
    refine ⟨?_,?_,?_⟩ <;> intro ht <;> rw [ht] at hs <;> cases hs

/-- From then on no answer is behind the index. A leader of a term that is not earlier waits
with such an index, and an earlier one waits for nodes that had not left its term. -/
def pact (d : Mark) : ReadPact where
  ctx := d.ctx
  tells := d.Tells
  clear := d.Clear
  heard := d.hist.Behind
  waits := fun T k => d.term≤T → d.index≤k
  answer := (d.index≤·)

end Mark

namespace Core

/-- A leader takes on a request only if it is pending already or nobody had acknowledged it. -/
def Admits (d : Mark) (S : Message → Prop) (c : Core) : Prop :=
  c.state=.stateLeader → ∀ m x, (S m ∧ m.type=.msgReadIndex) ∨ m ∈ c.pendingReadIndexMessages →
    m.firstData=.ok x → x ∈ c.readOnly.readIndexQueue ∨ d.Clear c.term x

/-- A leader of a configuration with one voter is that voter, and has committed an entry of
its term. -/
def Rules (c : Core) : Prop :=
  c.state=.stateLeader → c.prs.isSingleton=true →
    MajorityConfig.has c.prs.config.voters.incoming c.id=true ∧
      termAt c.raftLog.all c.raftLog.committed=c.term

end Core

theorem JointConfig.quorumOf_single {c : JointConfig} {id : Nat}
    (hin : MajorityConfig.len c.incoming=1) (hout : MajorityConfig.len c.outgoing=0)
    (hid : MajorityConfig.has c.incoming id=true) : c.QuorumOf (·=id) := by
  refine ⟨.inr ⟨{id},?_,?_,?_⟩,.inl hout⟩
  · simpa using hid
  · simp [hin]
  · simp

namespace Ordered

section

variable [Raftpb] {F : Founding} {B : Base Entry} {h : Hist Entry} {i a : Nat} {c : Core} {d : Mark}
  (ho : Ordered F B h i a c) (hd : d.Sound F B) (hs : d.hist.Since h)
include ho hs

theorem self_behind : d.hist.Behind c.term c.id := by
  rw [ho.core.id]
  exact ho.core.node.behind hs

include hd

/-- What a leader has committed in its term is not behind the index. -/
theorem own_index (hl : c.state=.stateLeader)
    (ht : termAt c.raftLog.all c.raftLog.committed=c.term) (hle : d.term≤c.term) :
    d.index≤c.raftLog.committed := by
  have hown := ho.core.node.own_commit ho.hist (StateType.role_leader.mpr hl) ht hle
  exact (hd.reached.trans (hs.comm d.term)).trans hown

/-- A leader that a quorum has acknowledged since then is not of an earlier term. -/
theorem term_le (hl : c.state=.stateLeader) {A : Nat → Prop}
    (hq : c.prs.config.voters.QuorumOf A) (hA : ∀ v, A v → d.hist.Behind c.term v)
    (h0 : 0<d.index) : d.term≤c.term := by
  by_contra hlt
  have hz := ho.core.node.comm_since hd.hist hd.governed hs ho.hist (StateType.role_leader.mpr hl)
    ho.placed.path hq (ho.placed.leads hl).1 ho.placed.committed hA (Nat.not_le.mp hlt)
  have := hd.reached
  omega

/-- The only voter answers with its commit index. -/
theorem ruler_index (hr : c.Rules) (hl : c.state=.stateLeader) (hone : c.prs.isSingleton=true) :
    d.index≤c.raftLog.committed := by
  obtain ⟨hself,hown⟩ := hr hl hone
  rcases Nat.eq_zero_or_pos d.index with hz | h0
  · omega
  simp only [ProgressTracker.isSingleton,Bool.and_eq_true,decide_eq_true_eq] at hone
  refine ho.own_index hd hs hl hown (ho.term_le hd hs hl
    (JointConfig.quorumOf_single hone.1 hone.2 hself) ?_ h0)
  rintro v rfl
  exact ho.self_behind hs

end

end Ordered

/-- A node in its place keeps the pact. -/
theorem Ordered.binds [Raftpb] {F : Founding} {B : Base Entry} {h : Hist Entry} {i a : Nat}
    {c : Core} {d : Mark} {S : Message → Prop} (ho : Ordered F B h i a c) (hd : d.Sound F B)
    (hs : d.hist.Since h) (hS : ∀ m, S m → d.Tells m) (hA : c.Admits d S)
    (hR : ∀ m, S m → m.type=.msgReadIndex → c.Rules) : c.Binds d.pact S where
  heartbeat := by
    intro _ m ht _
    refine ⟨?_,?_,?_⟩ <;> intro h <;> cases ht.symm.trans h
  echo := by
    intro _ _ _ _ m ht hterm hfrom
    refine ⟨fun _ => .inr ?_,?_,?_⟩
    · rw [hterm,hfrom]
      exact ho.self_behind hs
    all_goals
      intro h
      cases ht.symm.trans h
  forward := by
    intro _ _ _ m ht h0 _
    refine ⟨?_,?_,fun _ => h0⟩ <;> intro h <;> cases ht.symm.trans h
  reply := by
    intro m ht hidx
    refine ⟨?_,fun _ => hidx,?_⟩ <;> intro h <;> cases ht.symm.trans h
  register := by
    intro hl hcur
    rw [ho.core.log.term_eq] at hcur
    exact ⟨ho.self_behind hs,fun m x hm hx => ⟨hA hl m x hm hx,fun _ =>
      ho.own_index hd hs hl (Except.ok.inj hcur)⟩⟩
  alone := fun hl hone m hm ht _ => ho.ruler_index hd hs (hR m hm ht) hl hone
  ack := by
    intro m hm ht hterm hctx hclear
    -- whoever acknowledged before that moment acknowledged something else
    rcases (hS m hm).beat ht with hsent | hbehind
    · rcases hclear with hnil | hclear
      · exact absurd hnil hctx
      · exact absurd rfl (hclear m hsent ht hterm)
    · exact hterm ▸ hbehind
  release := by
    intro hl A index hq hA hidx
    rcases Nat.eq_zero_or_pos d.index with hz | h0
    · exact hz.trans_le (Nat.zero_le _)
    · exact hidx (ho.term_le hd hs hl hq hA h0)
  learn := fun m hm => (hS m hm).resp

namespace Core

/-- Nobody had acknowledged the requests that a leader has postponed, in its term. -/
def Postpones (d : Mark) (c : Core) : Prop :=
  c.state=.stateLeader → ∀ m ∈ c.pendingReadIndexMessages, ∀ x, m.firstData=.ok x → d.Clear c.term x

theorem Postpones.admits {d : Mark} {c : Core} {S : Message → Prop} (hp : c.Postpones d)
    (hS : ∀ m, S m → m.type≠.msgReadIndex) : c.Admits d S := by
  intro hl m x hm hx
  rcases hm with ⟨hm,ht⟩ | hm
  · exact absurd ht (hS m hm)
  · exact .inr (hp hl m hm x hx)

section

variable [Raftpb] {F : Founding} {B : Base Entry} {h h' : Hist Entry} {i a : Nat} {c c' : Core}
  {d : Mark} {S : Message → Prop}

/-- A new leader has heard nothing in its term. -/
theorem HostMove.postpones (ho : Ordered F B h i a c) (hd : d.Sound F B) (hs : d.hist.Since h)
    (hS : ∀ m, S m → m.type≠.msgReadIndex) (hp : c.Postpones d) (hm : HostMove S c c') :
    c'.Postpones d := by
  intro hl m hmem x hx
  obtain ⟨hterm,hbefore⟩ := hm.leader_before hl
  rw [hterm]
  have hmem : m ∈ c.pendingReadIndexMessages := by
    rcases hm.postponed hmem with hmem | ⟨hSm,ht⟩
    · exact hmem
    · exact absurd ht (hS m hSm)
  rcases hbefore with hlead | ⟨hcand,hwon⟩
  · exact hp hlead m hmem x hx
  · refine .inr (fun n hn ht hT _ => ?_)
    have hled := hs.lead _ (hd.led n hn ht)
    rw [hT,(ho.electOk hcand hwon).2.1] at hled
    cases hled

/-- A node since the mark, as far as its own steps go. -/
structure Serves (d : Mark) (h : Hist Entry) (c : Core) : Prop where
  since : d.hist.Since h
  reads : c.Reads d.pact
  postpones : c.Postpones d

theorem HostMove.serves (hd : d.Sound F B) (hS : ∀ m, S m → d.Tells m ∧ m.type≠.msgReadIndex)
    (ho : Ordered F B h i a c) (p : Carried F B i a h c h' c') (hm : HostMove S c c')
    (hc : c.Serves d h) : c'.Serves d h' where
  since := hc.since.grown p.grown
  reads := hm.reads (ho.binds hd hc.since (fun m hm => (hS m hm).1)
    (hc.postpones.admits (fun m hm => (hS m hm).2)) (fun m hm ht => absurd ht (hS m hm).2)) hc.reads
  postpones := hm.postpones ho hd hc.since (fun m hm => (hS m hm).2) hc.postpones

/-- A node that is handed a read request. -/
structure Asked (d : Mark) (S : Message → Prop) (h : Hist Entry) (c : Core) : Prop where
  since : d.hist.Since h
  reads : c.Reads d.pact
  admits : c.Admits d S
  rules : c.Rules

theorem Send.asked (hd : d.Sound F B) (hS : ∀ m, S m → d.Tells m ∧ m.type=.msgReadIndex)
    (ho : Ordered F B h i a c) (p : Carried F B i a h c h' c') (hm : Send S c c')
    (hc : c.Asked d S h) : c'.Asked d S h' where
  since := hc.since.grown p.grown
  reads := hm.reads (ho.binds hd hc.since (fun m hm => (hS m hm).1) hc.admits
    (fun _ _ _ => hc.rules)) hc.reads
  admits := by
    have hf := hm.frame
    have hqueue := hm.queue_subset (fun m hSm ht => by
      have hreq := (hS m hSm).2
      rw [ht] at hreq
      cases hreq)
    intro hl m x hmem hx
    have hmem : (S m ∧ m.type=.msgReadIndex) ∨ m ∈ c.pendingReadIndexMessages := by
      rcases hmem with hmem | hmem
      · exact .inl hmem
      · exact (hm.postponed hmem).symm
    rw [hf.term]
    exact (hc.admits (hf.state.symm.trans hl) m x hmem hx).imp_left (fun hx => hqueue hx)
  rules := by
    have hf := hm.frame
    intro hl hone
    unfold ProgressTracker.isSingleton at hone
    rw [hf.config] at hone ⊢
    rw [hf.id,hf.raftLog,hf.term]
    exact hc.rules (hf.state.symm.trans hl) hone

end

end Core

/-- Before a read request is issued no message is about it. A heartbeat and its answer are of a
term that has a leader. -/
structure Message.Before (ctx : Bytes) (h : Hist Entry) (m : Message) : Prop where
  beat : m.type=.msgHeartbeat ∨ m.type=.msgHeartbeatResp → (h.lead m.term).isSome
  resp : m.type=.msgReadIndexResp → m.firstData≠.ok ctx
  req : m.type=.msgReadIndex → m.term=0 ∧ m.firstData≠.ok ctx

/-- Before that the request neither waits nor is answered. -/
def Consensus.Hist.unasked (h : Hist Entry) (ctx : Bytes) : ReadPact where
  ctx := ctx
  tells := Message.Before ctx h
  clear := fun _ _ => True
  heard := fun _ _ => True
  waits := fun _ _ => False
  answer := fun _ => False

structure Core.Before (ctx : Bytes) (h : Hist Entry) (c : Core) : Prop where
  reads : c.Reads (h.unasked ctx)
  postponed : ∀ m ∈ c.pendingReadIndexMessages, m.firstData≠.ok ctx

section

variable {ctx : Bytes} {h h' : Hist Entry}

theorem Message.Before.mono {j : Nat} (g : h.Grown j h') {m : Message} (hm : m.Before ctx h) :
    m.Before ctx h' := ⟨fun ht => g.lead_isSome (hm.beat ht),hm.resp,hm.req⟩

theorem Message.Before.of_serves {m : Message} (hm : m.type.serves=true → m.Before ctx h) :
    m.Before ctx h := by
  cases hs : m.type.serves with
  | true => exact hm hs
  | false =>
    refine ⟨?_,?_,?_⟩
    · rintro (ht | ht) <;> rw [ht] at hs <;> cases hs
    all_goals
      intro ht
      rw [ht] at hs
      cases hs

theorem Core.Before.mono {j : Nat} {c : Core} (g : h.Grown j h') (hc : c.Before ctx h) :
    c.Before ctx h' where
  reads := ⟨hc.reads.told,fun m hm hs => (hc.reads.said m hm hs).mono g,hc.reads.safe,
    hc.reads.waits⟩
  postponed := hc.postponed

variable [Raftpb] {F : Founding} {B : Base Entry} {i a : Nat} {c c' : Core} {S : Message → Prop}

theorem Ordered.binds_before (ho : Ordered F B h i a c) (hS : ∀ m, S m → m.Before ctx h)
    (hp : ∀ m ∈ c.pendingReadIndexMessages, m.firstData≠.ok ctx) : c.Binds (h.unasked ctx) S where
  heartbeat := by
    intro hl m ht hterm
    have hlead := (ho.core.node.leader (StateType.role_leader.mpr hl)).1
    refine ⟨fun _ => ?_,?_,?_⟩
    · rw [hterm]
      change (h.lead c.node.term).isSome
      rw [hlead]
      rfl
    all_goals
      intro hother
      cases ht.symm.trans hother
  echo := by
    intro n hn hnt hnterm m ht hterm _
    refine ⟨fun _ => ?_,?_,?_⟩
    · rw [hterm,← hnterm]
      exact (hS n hn).beat (.inl hnt)
    all_goals
      intro hother
      cases ht.symm.trans hother
  forward := by
    intro n hn hnt m ht h0 hents
    have hfirst : m.firstData=n.firstData := by
      unfold Message.firstData
      rw [hents]
    refine ⟨?_,?_,fun _ => ⟨h0,?_⟩⟩
    · rintro (hother | hother) <;> cases ht.symm.trans hother
    · intro hother
      cases ht.symm.trans hother
    · rw [hfirst]
      exact ((hS n hn).req hnt).2
  reply := by
    intro m ht hidx
    refine ⟨?_,fun _ => hidx,?_⟩
    · rintro (hother | hother) <;> cases ht.symm.trans hother
    · intro hother
      cases ht.symm.trans hother
  register := by
    refine fun _ _ => ⟨trivial,fun m x hm hx => ⟨.inr trivial,?_⟩⟩
    rintro rfl
    rcases hm with ⟨hm,ht⟩ | hm
    · exact ((hS m hm).req ht).2 hx
    · exact hp m hm hx
  alone := fun _ _ m hm ht => ((hS m hm).req ht).2
  ack := fun _ _ _ _ _ _ => trivial
  release := fun _ _ _ _ _ hw => hw
  learn := fun m hm => (hS m hm).resp

theorem Core.HostMove.before (hS : ∀ m, S m → m.Before ctx h) (ho : Ordered F B h i a c)
    (p : Carried F B i a h c h' c') (hm : HostMove S c c') (hc : c.Before ctx h) :
    c'.Before ctx h' := by
  have hbefore : c'.Before ctx h := by
    refine ⟨hm.reads (ho.binds_before hS hc.postponed) hc.reads,fun m hmem => ?_⟩
    rcases hm.postponed hmem with hmem | ⟨hSm,ht⟩
    · exact hc.postponed m hmem
    · exact ((hS m hSm).req ht).2
  exact hbefore.mono p.grown

end

end RaftTesting
