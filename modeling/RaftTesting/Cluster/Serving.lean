import RaftTesting.Cluster.Reads
import RaftTesting.Cluster.Realm
import RaftTesting.Cluster.Safety

namespace RaftTesting

open Consensus

theorem Core.Reads.flush {k : ReadPact} {c : Core} (hr : c.Reads k) :
    ({ c with msgs := [], readStates := [] } : Core).Reads k where
  told := fun _ hrs => by cases hrs
  said := fun _ hm => by cases hm
  safe := hr.safe
  waits := hr.waits

section

variable [Raftpb] {F : Founding} {B : Base Entry} {i : Nat}

theorem upheld_before (ctx : Bytes) : Upheld F B i (fun h c => c.Before ctx h) where
  move := fun ho p hm hc => hm.before (fun _ hS => hS.elim) ho p hc
  setLog := fun hc => ⟨hc.reads.keep rfl rfl rfl (fun _ => .inl),hc.postponed⟩
  install := fun hc => ⟨hc.reads.keep rfl rfl rfl (fun _ => .inl),hc.postponed⟩
  flush := fun hc => ⟨hc.reads.flush,hc.postponed⟩

theorem upheld_serves {d : Mark} (hd : d.Sound F B) : Upheld F B i (fun h c => c.Serves d h) where
  move := fun ho p hm hc => hm.serves hd (fun _ hS => hS.elim) ho p hc
  setLog := fun hc => ⟨hc.since,hc.reads.keep rfl rfl rfl (fun _ => .inl),hc.postpones⟩
  install := fun hc => ⟨hc.since,hc.reads.keep rfl rfl rfl (fun _ => .inl),hc.postpones⟩
  flush := fun hc => ⟨hc.since,hc.reads.flush,hc.postpones⟩

end

/-- The request is about the context. -/
def Message.asks (m : Message) (x : Bytes) : Bool := m.entries.head?.any (fun e => e.data=x)

theorem Message.asks_iff (m : Message) (x : Bytes) : m.asks x=true ↔ m.firstData=.ok x := by
  unfold asks firstData
  cases m.entries <;> simp

namespace Cluster

/-- All messages that were sent or are about to be. -/
def around (c : Cluster) : List Message :=
  c.net++c.hosts.keys.flatMap (fun i => ((c.hosts.get? i).map (·.rn.raft.msgs)).getD [])

theorem mem_around {c : Cluster} {m : Message} : m ∈ c.around ↔
    m ∈ c.net ∨ ∃ i H, c.hosts.get? i=some H ∧ m ∈ H.rn.raft.msgs := by
  unfold around
  rw [List.mem_append,List.mem_flatMap]
  refine or_congr_right ⟨?_,?_⟩
  · rintro ⟨i,hi,hm⟩
    rw [SortedMap.mem_keys] at hi
    obtain ⟨H,hH⟩ := Option.isSome_iff_exists.mp hi
    rw [hH] at hm
    exact ⟨i,H,hH,hm⟩
  · rintro ⟨i,H,hH,hm⟩
    refine ⟨i,(SortedMap.mem_keys _ _).mpr (by rw [hH]; rfl),?_⟩
    rw [hH]
    exact hm

/-- No node has acknowledged the request to the leader of term T. -/
def unheard (c : Cluster) (T : Nat) (m : Message) : Bool :=
  c.around.all (fun a =>
    a.type≠.msgHeartbeatResp || a.term≠T || a.context=[] || !m.asks a.context)

/-- A read request that leader r may be handed: it is pending already, or no node has
acknowledged it in this term. If there is only one voter, that is the leader. -/
def takes (c : Cluster) (r : Raft) (m : Message) : Bool :=
  (r.readOnly.readIndexQueue.any m.asks || c.unheard r.term m) &&
  (!r.prs.isSingleton || MajorityConfig.has r.prs.config.voters.incoming r.id &&
    r.raftLog.lastIndex ≤ maxUint64)

/-- A leader is handed only such requests, and has postponed none that a node has
acknowledged. -/
def careful (c : Cluster) (i : Nat) (e : Event) : Bool :=
  match c.hosts.get? i with
  | none => true
  | some H =>
    let r := H.rn.raft
    r.state≠.stateLeader || r.pendingReadIndexMessages.all (c.unheard r.term) &&
      (e.message r.id).all (fun m => m.type≠.msgReadIndex || c.takes r m)

/-- Nobody issues the read request. -/
def unissued (ctx : Bytes) (_ : Cluster) (_ : Nat) (e : Event) : Bool := e≠.call (.readIndex ctx)

variable [Raftpb]

/-- The cluster after a schedule of events, as long as no host panics and every event is
allowed where it happens. -/
def run (allowed : Cluster → Nat → Event → Bool) (c : Cluster) :
    List (Nat × Event) → Option Cluster
  | [] => some c
  | (i,e)::es =>
    if allowed c i e then
      match c.act i e with
      | .error _ => none
      | .ok c => c.run allowed es
    else none

/-- No host has seen the request, and no message is about it. -/
structure Before (ctx : Bytes) (h : Hist Entry) (c : Cluster) : Prop where
  hosts : ∀ i H, c.hosts.get? i=some H → H.rn.raft.core.Before ctx h
  net : ∀ m ∈ c.net, m.Before ctx h

/-- The cluster since the mark. -/
structure Serving (d : Mark) (h : Hist Entry) (c : Cluster) : Prop where
  since : d.hist.Since h
  hosts : ∀ i H, c.hosts.get? i=some H → H.rn.raft.core.Reads d.pact
  net : ∀ m ∈ c.net, d.Tells m
  kept : ∀ m, d.sent m → m ∈ c.around

section

variable {F : Founding} {B : Base Entry} {h : Hist Entry} {c c' : Cluster} {i : Nat} {e : Event}
  {ctx : Bytes} {d : Mark}

omit [Raftpb] in
/-- Nothing that was around gets lost. -/
theorem Evolves.around_subset (ev : c.Evolves i c') : c.around ⊆ c'.around := by
  intro m hm
  rw [mem_around] at hm ⊢
  rcases hm with hm | ⟨j,H,hH,hm⟩
  · exact .inl (ev.net hm)
  by_cases hji : j=i
  · subst hji
    obtain ⟨H',hH',hkept⟩ := ev.kept H hH
    rcases hkept m hm with hm | hm
    · exact .inr ⟨j,H',hH',hm⟩
    · exact .inl hm
  · exact .inr ⟨j,H,(ev.others j hji).trans hH,hm⟩

omit [Raftpb] in
/-- The messages that an application steps its node with are about no other request. -/
theorem Before.message (hb : c.Before ctx h) (hen : c.enabled i e=true)
    (he : unissued ctx c i e=true) {id : Nat} {m : Message} (hm : e.message id=some m) :
    m.Before ctx h := by
  cases e with
  | recv n =>
    cases Option.some.inj hm
    simp only [enabled,Bool.and_eq_true,decide_eq_true_eq] at hen
    exact hb.net m hen.1
  | call n =>
    cases Option.some.inj hm
    cases n with
    | readIndex x =>
      refine ⟨?_,?_,fun _ => ⟨rfl,fun hx => ?_⟩⟩
      · rintro (ht | ht) <;> cases ht
      · intro ht
        cases ht
      · have hx : x=ctx := Except.ok.inj hx
        rw [hx] at he
        exact absurd rfl (of_decide_eq_true he)
    | campaign | propose | transferLeader | reportUnreachable | reportSnapshot =>
      refine .of_serves (fun hs => ?_)
      cases hs
  | tick | ready | save | apply | advance => cases hm

/-- As long as the request is not issued, nobody knows of it. -/
theorem act_before (hr : Realm F B h c) (hb : c.Before ctx h) (he : unissued ctx c i e=true)
    (ha : c.act i e=.ok c') : ∃ h', Realm F B h' c' ∧ c'.Before ctx h' := by
  obtain ⟨h',g,hr',ev,hself⟩ : ∃ h', h.Grown i h' ∧ Realm F B h' c' ∧ c.Evolves i c' ∧
      ∀ H', c'.hosts.get? i=some H' → H'.rn.raft.core.Before ctx h' := by
    refine hr.act (P := fun h c => c.Before ctx h) (fun _ => upheld_before ctx) (hb.hosts i) ?_ ha
    intro H a m r err hH hp hen hm hstep
    have hmb := hb.message hen he hm
    have hgiven := hr.given hen hm
    have hmoves := Raft.step_moves (S := (·=m)) (fun _ => rfl) hgiven.1.2.1 hstep
    obtain ⟨h',p,hc⟩ := Core.chain_carried (S := (·=m))
      (P := fun h c => c.Before ctx h ∧ m.Before ctx h) (fun hm => .move hm)
      (fun n hn => hn ▸ hgiven) (fun _ ho p hm hc =>
        ⟨(Core.HostMove.move hm).before (fun n hn => hn ▸ hc.2) ho p hc.1,hc.2.mono p.grown⟩)
      (hp.ordered hr.hist hr.governed) ⟨hb.hosts i H hH,hmb⟩ hmoves
      (hmoves.fixed.2.trans_le hp.placed.applied)
    exact ⟨h',p,hc.1⟩
  refine ⟨h',hr',?_,?_⟩
  · intro j J hJ
    by_cases hji : j=i
    · exact hself J (hji ▸ hJ)
    · rw [ev.others j hji] at hJ
      exact (hb.hosts j J hJ).mono g
  · intro m hm
    rcases ev.sent m hm with hm | ⟨H,hH,hm⟩
    · exact (hb.net m hm).mono g
    · exact (Message.Before.of_serves ((hb.hosts i H hH).reads.said m hm)).mono g

theorem run_before {es : List (Nat × Event)} (hr : Realm F B h c) (hb : c.Before ctx h)
    (he : c.run (unissued ctx) es=some c') : ∃ h', Realm F B h' c' ∧ c'.Before ctx h' := by
  induction es generalizing c h with
  | nil =>
    cases he
    exact ⟨h,hr,hb⟩
  | cons e es ih =>
    obtain ⟨i,e⟩ := e
    simp only [run] at he
    split_ifs at he with hok
    split at he
    · cases he
    · rename_i c1 hact
      obtain ⟨h1,hr1,hb1⟩ := act_before hr hb hok hact
      exact ih hr1 hb1 he

omit [Raftpb] in
theorem Serving.message (hs : c.Serving d h) (hen : c.enabled i e=true) {id : Nat} {m : Message}
    (hm : e.message id=some m) : d.Tells m := by
  cases e with
  | recv n =>
    cases Option.some.inj hm
    simp only [enabled,Bool.and_eq_true,decide_eq_true_eq] at hen
    exact hs.net m hen.1
  | call n =>
    cases Option.some.inj hm
    cases n <;> refine ⟨?_,?_,?_⟩ <;> intro ht <;> first | rfl | cases ht
  | tick | ready | save | apply | advance => cases hm

omit [Raftpb] in
theorem Serving.clear (hs : c.Serving d h) {T : Nat} {m : Message} {x : Bytes}
    (hu : c.unheard T m=true) (hx : m.firstData=.ok x) : d.Clear T x := by
  by_cases hnil : x=[]
  · exact .inl hnil
  refine .inr (fun a ha ht hT hc => ?_)
  have hall := List.all_eq_true.mp hu a (hs.kept a ha)
  rw [← hc] at hx hnil
  simp [ht,hT,hnil,(m.asks_iff a.context).mpr hx] at hall

omit [Raftpb] in
theorem careful_leader {H : Host} (hcare : c.careful i e=true) (hH : c.hosts.get? i=some H)
    (hl : H.rn.raft.state=.stateLeader) :
    (∀ m ∈ H.rn.raft.pendingReadIndexMessages, c.unheard H.rn.raft.term m=true) ∧
      ∀ m, e.message H.rn.raft.id=some m → m.type=.msgReadIndex → c.takes H.rn.raft m=true := by
  unfold careful at hcare
  rw [hH] at hcare
  simp only [hl,ne_eq,not_true_eq_false,decide_false,Bool.false_or,Bool.and_eq_true] at hcare
  refine ⟨List.all_eq_true.mp hcare.1,fun m hm ht => ?_⟩
  have hmsg := hcare.2
  rw [hm] at hmsg
  simpa [ht] using hmsg

omit [Raftpb] in
theorem Serving.postpones (hs : c.Serving d h) {H : Host} (hcare : c.careful i e=true)
    (hH : c.hosts.get? i=some H) : H.rn.raft.core.Postpones d := by
  intro hl m hm x hx
  exact hs.clear ((careful_leader hcare hH hl).1 m hm) hx

omit [Raftpb] in
/-- What a leader is handed, or has postponed, it may take on. -/
theorem Serving.admits (hs : c.Serving d h) {H : Host} {m : Message} (hcare : c.careful i e=true)
    (hH : c.hosts.get? i=some H) (hm : e.message H.rn.raft.id=some m) (ht : m.type=.msgReadIndex) :
    H.rn.raft.core.Admits d (·=m) := by
  intro hl n x hn hx
  rcases hn with ⟨rfl,-⟩ | hn
  · have htakes := (careful_leader hcare hH hl).2 n hm ht
    simp only [takes,Bool.and_eq_true,Bool.or_eq_true,List.any_eq_true] at htakes
    rcases htakes.1 with ⟨y,hy,hasks⟩ | hu
    · have hyx : y=x := Except.ok.inj (((n.asks_iff y).mp hasks).symm.trans hx)
      exact .inl (hyx ▸ hy)
    · exact .inr (hs.clear hu hx)
  · exact .inr (hs.postpones hcare hH hl n hn x hx)

/-- A leader with one voter is that voter, and has committed in its term. -/
theorem rules (hr : Realm F B h c) {H : Host} {m : Message} (hcare : c.careful i e=true)
    (hH : c.hosts.get? i=some H) (hm : e.message H.rn.raft.id=some m) (ht : m.type=.msgReadIndex) :
    H.rn.raft.core.Rules := by
  intro hl hone
  have htakes := (careful_leader hcare hH hl).2 m hm ht
  have hone : H.rn.raft.prs.isSingleton=true := hone
  simp only [takes,hone,Bool.not_true,Bool.false_or,Bool.and_eq_true,decide_eq_true_eq] at htakes
  obtain ⟨a,hp⟩ := hr.hosts i H hH
  exact ⟨htakes.2.1,(hr.sole i H hH).own_term hp.hosted.core.log hl ⟨hone,htakes.2.1⟩ htakes.2.2⟩

/-- A step of the node with a message keeps its reads in order. -/
theorem Serving.step (hr : Realm F B h c) (hd : d.Sound F B) (hs : c.Serving d h) {H : Host}
    {a : Nat} {m : Message} {r : Raft} {err : Option StepErr} (hcare : c.careful i e=true)
    (hH : c.hosts.get? i=some H) (hp : HostPlaced F B h i a H) (hen : c.enabled i e=true)
    (hm : e.message H.rn.raft.id=some m) (hstep : H.rn.raft.step m=.ok (r,err)) :
    ∃ h', Carried F B i a h H.rn.raft.core h' r.core ∧ d.hist.Since h' ∧ r.core.Reads d.pact := by
  have htells := hs.message hen hm
  have hgiven := hr.given hen hm
  have ho := hp.ordered hr.hist hr.governed
  have hreads := hs.hosts i H hH
  by_cases ht : m.type=.msgReadIndex
  · have hsends := Raft.step_readIndex_sends (S := (·=m)) rfl ht (htells.req ht) hstep
    obtain ⟨h',p,hc⟩ := Core.chain_carried (S := (·=m)) (P := fun h c => c.Asked d (·=m) h)
      (fun hm => .move (.send hm)) (fun n hn => hn ▸ hgiven)
      (fun _ ho p hm hc => hm.asked hd (fun n hn => hn ▸ ⟨htells,ht⟩) ho p hc) ho
      ⟨hs.since,hreads,hs.admits hcare hH hm ht,rules hr hcare hH hm ht⟩ hsends
      (hsends.moves.fixed.2.trans_le hp.placed.applied)
    exact ⟨h',p,hc.since,hc.reads⟩
  · have hmoves := Raft.step_moves (S := (·=m)) (fun _ => rfl) hgiven.1.2.1 hstep
    obtain ⟨h',p,hc⟩ := Core.chain_carried (S := (·=m)) (P := fun h c => c.Serves d h)
      (fun hm => .move hm) (fun n hn => hn ▸ hgiven)
      (fun _ ho p hm hc => Core.HostMove.serves (S := (·=m)) hd (fun n hn => hn ▸ ⟨htells,ht⟩) ho p
        (.move hm) hc) ho
      ⟨hs.since,hreads,hs.postpones hcare hH⟩ hmoves
      (hmoves.fixed.2.trans_le hp.placed.applied)
    exact ⟨h',p,hc.since,hc.reads⟩

omit [Raftpb] in
theorem Serving.evolves (hs : c.Serving d h) {h' : Hist Entry} (ev : c.Evolves i c')
    (hself : ∀ H', c'.hosts.get? i=some H' → H'.rn.raft.core.Reads d.pact) (g : h.Grown i h') :
    c'.Serving d h' where
  since := hs.since.grown g
  hosts := by
    intro j J hJ
    by_cases hji : j=i
    · exact hself J (hji ▸ hJ)
    · rw [ev.others j hji] at hJ
      exact hs.hosts j J hJ
  net := by
    intro m hm
    rcases ev.sent m hm with hm | ⟨H,hH,hm⟩
    · exact hs.net m hm
    · exact .of_serves ((hs.hosts i H hH).said m hm)
  kept := fun m hm => ev.around_subset (hs.kept m hm)

theorem act_serving (hr : Realm F B h c) (hd : d.Sound F B) (hs : c.Serving d h)
    (hcare : c.careful i e=true) (ha : c.act i e=.ok c') :
    ∃ h', Realm F B h' c' ∧ c'.Serving d h' := by
  by_cases hnone : ∀ id, e.message id=none
  · obtain ⟨h',g,hr',ev,hself⟩ : ∃ h', h.Grown i h' ∧ Realm F B h' c' ∧ c.Evolves i c' ∧
        ∀ H', c'.hosts.get? i=some H' → H'.rn.raft.core.Serves d h' := by
      refine hr.act (P := fun h c => c.Serves d h) (fun _ => upheld_serves hd) ?_ ?_ ha
      · exact fun H hH => ⟨hs.since,hs.hosts i H hH,hs.postpones hcare hH⟩
      · intro H a m r err _ _ _ hm
        rw [hnone] at hm
        cases hm
    exact ⟨h',hr',hs.evolves ev (fun H' hH' => (hself H' hH').reads) g⟩
  · obtain ⟨h',g,hr',ev,hself⟩ : ∃ h', h.Grown i h' ∧ Realm F B h' c' ∧ c.Evolves i c' ∧
        ∀ H', c'.hosts.get? i=some H' → d.hist.Since h' ∧ H'.rn.raft.core.Reads d.pact := by
      refine hr.act (P := fun h c => d.hist.Since h ∧ c.Reads d.pact)
        (fun hno => absurd hno hnone) ?_ ?_ ha
      · exact fun H hH => ⟨hs.since,hs.hosts i H hH⟩
      · exact fun H a m r err hH hp hen hm hstep => hs.step hr hd hcare hH hp hen hm hstep
    exact ⟨h',hr',hs.evolves ev (fun H' hH' => (hself H' hH').2) g⟩

theorem run_serving {es : List (Nat × Event)} (hr : Realm F B h c) (hd : d.Sound F B)
    (hs : c.Serving d h) (he : c.run careful es=some c') : ∃ h', c'.Serving d h' := by
  induction es generalizing c h with
  | nil =>
    cases he
    exact ⟨h,hs⟩
  | cons e es ih =>
    obtain ⟨i,e⟩ := e
    simp only [run] at he
    split_ifs at he with hok
    split at he
    · cases he
    · rename_i c1 hact
      obtain ⟨h1,hr1,hs1⟩ := act_serving hr hd hs hok hact
      exact ih hr1 hs1 he

/-- The moment at which host H has committed what it has. -/
def mark (c : Cluster) (h : Hist Entry) (ctx : Bytes) (T : Nat) (H : Host) : Mark where
  hist := h
  sent := (· ∈ c.around)
  ctx := ctx
  term := T
  index := H.rn.raft.raftLog.committed

omit [Raftpb] in
theorem Before.tells {T : Nat} {H : Host} {m : Message} (hm : m.Before ctx h)
    (hmem : m ∈ c.around) : (c.mark h ctx T H).Tells m :=
  ⟨fun _ => .inl hmem,fun ht hx => absurd hx (hm.resp ht),fun ht => (hm.req ht).1⟩

omit [Raftpb] in
/-- When the request is issued all is still open. -/
theorem Before.serving (hb : c.Before ctx h) (T : Nat) (H : Host) :
    c.Serving (c.mark h ctx T H) h where
  since := .refl h
  hosts := by
    intro i J hJ
    have hc := hb.hosts i J hJ
    have hnone : J.rn.raft.core.readOnly.since ctx=[] := by
      refine ReadOnly.since_eq_nil hc.reads.waits.toConsistent (fun hmem => ?_)
      rw [← hc.reads.waits.queue] at hmem
      obtain ⟨q,hq,he⟩ := List.mem_map.mp hmem
      exact hc.reads.waits.index q hq he
    refine ⟨fun rs hrs he => (hc.reads.told rs hrs he).elim,fun m hm hs => ?_,hc.reads.safe,
      hc.reads.waits.toConsistent,fun q hq => ?_,fun q hq he => (hc.reads.waits.index q hq he).elim⟩
    · exact Before.tells (hc.reads.said m hm hs) (mem_around.mpr (.inr ⟨i,J,hJ,hm⟩))
    · have hq : q ∈ J.rn.raft.core.readOnly.since ctx := hq
      rw [hnone] at hq
      cases hq
  net := fun m hm => Before.tells (hb.net m hm) (mem_around.mpr (.inl hm))
  kept := fun _ hm => hm

theorem Before.sound (hr : Realm F B h c) (hb : c.Before ctx h) {H : Host} {T : Nat}
    (hT : H.rn.raft.raftLog.committed≤h.comm T) : (c.mark h ctx T H).Sound F B where
  hist := hr.hist
  governed := hr.governed
  reached := hT
  led := by
    intro m hm ht
    rcases mem_around.mp hm with hm | ⟨i,J,hJ,hm⟩
    · exact (hb.net m hm).beat (.inr ht)
    · have hsaid := (hb.hosts i J hJ).reads.said m hm (by rw [ht]; rfl)
      exact hsaid.beat (.inr ht)

end

end Cluster

end RaftTesting
