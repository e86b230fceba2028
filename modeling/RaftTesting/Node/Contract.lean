import RaftTesting.Node.EventLoop
import RaftTesting.Node.Fresh
import RaftTesting.Node.Windows

namespace RaftTesting

/-- A RawNode as its documentation asks for it to be used: with the Ready that is worked on, and
those handed out so far. -/
structure Contract where
  rn : RawNode
  out : Option Ready := none
  handed : List Ready := []

namespace Contract

section

variable [Raftpb]

/-- A Ready is taken when there is one and none is worked on. Nothing comes between its
production and its acceptance, it is the one that Advance confirms, and only in between is the
storage written. -/
inductive Step : Contract → Contract → Prop
  | step {c : Contract} {m : Message} {rn : RawNode} {err : Option StepErr}
      (h : c.rn.stepRaft m=.ok (rn,err)) : Step c { c with rn := rn }
  | tick {c : Contract} {rn : RawNode} (h : c.rn.tick=.ok rn) : Step c { c with rn := rn }
  | applyConfChange {c : Contract} {cc : ConfChangeV2} {rn : RawNode} {cs : ConfState}
      (h : c.rn.applyConfChange cc=.ok (rn,cs)) : Step c { c with rn := rn }
  | ready {c : Contract} {rn : RawNode} {rd : Ready} (hout : c.out=none)
      (hready : c.rn.hasReady=true) (h : c.rn.ready=.ok (rn,rd)) :
      Step c ⟨rn,some rd,c.handed++[rd]⟩
  | write {c : Contract} (ms : MemoryStorage) (hout : c.out≠none) : Step c { c with
      rn := { c.rn with raft := c.rn.raft.setLog { c.rn.raft.raftLog with storage := ms } } }
  | advance {c : Contract} {rn : RawNode} {rd : Ready} (hout : c.out=some rd)
      (h : c.rn.advance rd=.ok rn) : Step c { c with rn := rn, out := none }

abbrev Steps : Contract → Contract → Prop := Relation.ReflTransGen Step

end

end Contract

/-- The messages that may make a leader known are among these. -/
def Heard (ms : List Message) (m : Message) : Prop := m.type.leads=true → m ∈ ms

theorem OneVoice.heard {ms : List Message} (h : OneVoice (· ∈ ms)) : OneVoice (Heard ms) :=
  fun m m' hm hm' hl hl' => h m m' (hm hl) (hm' hl') hl hl'

def Case.Fits (M : Message → Prop) : Case → Prop
  | .propc m _ => m.type=.msgProp
  | .recvc m => m.Stamped ∧ M m
  | _ => True

theorem stepWithWaitOption_fits {M : Message → Prop} {m : Message} {wait : Bool}
    (hs : m.Stamped) (hm : M m) : (stepWithWaitOption m wait).Fits M := by
  unfold stepWithWaitOption
  split
  · exact ⟨hs,hm⟩
  · rename_i ht
    exact not_not.mp ht

/-- The messages of the node's own calls come from no leader. -/
theorem Request.case_fits {ms : List Message} {q : Request} {c : Case} (h : q.case=some c)
    (hq : ∀ m, q=.step m → m.Stamped ∧ m ∈ ms) : c.Fits (Heard ms) := by
  cases q with
  | step m =>
    dsimp only [Request.case] at h
    split at h <;> cases h
    obtain ⟨hs,hm⟩ := hq m rfl
    exact stepWithWaitOption_fits hs (fun _ => hm)
  | transferLeadership | reportUnreachable | reportSnapshot =>
    cases h
    exact ⟨fun h => (by cases h),fun h => (by cases h)⟩
  | campaign | propose | proposeConfChange | readIndex =>
    cases h
    exact stepWithWaitOption_fits (fun h => (by cases h)) (fun h => (by cases h))
  | applyConfChange | tick | ready | advance | status | stop =>
    cases h
    trivial

/-- The message that a deed takes from the network. -/
def Node.Deed.message : Node.Deed → Option Message
  | .call (.step m) => some m
  | _ => none

namespace Node

def contract (n : Node) (handed : List Ready) : Contract :=
  ⟨n.rn,if n.advancec then some n.rd else none,handed⟩

/-- The hard state that the application has, or will have with the Ready it works on. -/
def confirmed (n : Node) : HardState :=
  if n.advancec=true ∧ n.rd.hardState≠{} then n.rd.hardState else n.rn.prevHardSt

/-- A Ready that waits for its receiver is not the last one there was: another is due. -/
structure Fresh (M : Message → Prop) (n : Node) : Prop where
  follows : n.rn.raft.Follows M
  since : n.rn.raft.Since n.rn.prevSoftSt n.confirmed
  armed : n.readyc=true → n.advancec=false → n.rn.hasReady=true

/-- What the top of an iteration gives to the select: a Ready that waits is the one that the
RawNode would produce now. -/
structure Armed [Raftpb] (n n' : Node) : Prop where
  rn : n'.rn=n.rn
  advancec : n'.advancec=n.advancec
  rd : n.advancec=true → n'.rd=n.rd
  ready : n'.readyc=true → n.advancec=false ∧ n.rn.readyWithoutAccept=.ok n'.rd

theorem confirmed_idle {n : Node} (h : n.advancec=false) : n.confirmed=n.rn.prevHardSt := by
  unfold confirmed
  rw [if_neg]
  rintro ⟨hadv,-⟩
  rw [h] at hadv
  cases hadv

section

variable [Raftpb] {M : Message → Prop} {n n' : Node}

theorem Fresh.populate (hn : n.Fresh M) (h : n.populate=.ok n') : n'.Fresh M ∧ n.Armed n' := by
  unfold Node.populate at h
  split at h
  · cases h
    exact ⟨⟨hn.follows,hn.since,fun h => (by cases h)⟩,rfl,rfl,fun _ => rfl,fun h => (by cases h)⟩
  · rename_i hadv
    have hadv : n.advancec=false := Bool.eq_false_of_not_eq_true hadv
    split at h
    · rename_i hready
      obtain ⟨rd,hrd,h⟩ := bind_eq_ok.mp h
      cases h
      have hsince := hn.since
      rw [confirmed_idle hadv] at hsince
      refine ⟨⟨hn.follows,?_,fun _ _ => hready⟩,rfl,rfl,fun h => ?_,fun _ => ⟨hadv,hrd⟩⟩
      · rw [confirmed_idle (n := { n with rd := rd, readyc := true }) hadv]
        exact hsince
      · rw [hadv] at h
        cases h
    · rename_i hquiet
      cases h
      exact ⟨hn,rfl,rfl,fun _ => rfl,fun h => absurd (hn.armed h hadv) hquiet⟩

theorem Fresh.arm (hn : n.Fresh M) (h : n.arm=.ok n') : n'.Fresh M ∧ n.Armed n' := by
  obtain ⟨n1,h1,h⟩ := bind_eq_ok.mp h
  obtain ⟨hn1,ha⟩ := hn.populate h1
  split at h <;> cases h
  · exact ⟨⟨hn1.follows,hn1.since,hn1.armed⟩,ha.rn,ha.advancec,ha.rd,ha.ready⟩
  · exact ⟨hn1,ha⟩

omit [Raftpb] in
/-- The raft moves on while the Ready waits, or is worked on. -/
theorem Fresh.moves {r : Raft} (hn : n.Fresh M) (p : Bool) (h : Raft.Retains M n.rn.raft r) :
    Fresh M { n with rn := { n.rn with raft := r }, propc := p } where
  follows := h.follows
  since := hn.since.onward h.onward
  armed := by
    intro hr ha
    have hsince := hn.since
    rw [confirmed_idle (n := n) ha] at hsince
    exact RawNode.hasReady_stays hsince h (hn.armed hr ha)

/-- The Ready that is handed out has all there is. -/
theorem Fresh.accept (hn : n.Fresh M) (hadv : n.advancec=false)
    (hrd : n.rn.readyWithoutAccept=.ok n.rd) :
    Fresh M { n with rn := n.rn.acceptReady n.rd, advancec := true } := by
  have hsince := hn.since
  rw [confirmed_idle hadv] at hsince
  obtain ⟨ents,-,hrd⟩ := bind_eq_ok.mp hrd
  have hrd : Ready.mk _ _ _ _ _ _ _ _=n.rd := Except.ok.inj hrd
  have hsoft : (n.rn.acceptReady n.rd).prevSoftSt=n.rn.raft.softState := by
    rw [← hrd]
    unfold RawNode.acceptReady
    dsimp only
    split_ifs with heq
    · exact heq.symm
    · rfl
  have hhard : confirmed { n with rn := n.rn.acceptReady n.rd, advancec := true }=
      n.rn.raft.hardState := by
    unfold confirmed
    dsimp only [RawNode.acceptReady]
    rw [← hrd]
    dsimp only
    split_ifs with heq hne hne
    · exact absurd rfl hne.2
    · exact heq.symm
    · rfl
    · -- only a node without any state has an empty hard state
      have hzero : n.rn.raft.hardState={} := by
        by_contra hz
        exact hne ⟨rfl,hz⟩
      refine hsince.hard.antisymm ?_
      rw [hzero]
      exact .zero _
  refine ⟨hn.follows,⟨?_,.inr (.inr (.inr (.inl ?_)))⟩,fun _ h => (by cases h)⟩
  · rw [hhard]
    exact .refl _
  · exact hsoft

theorem Fresh.advance {rn : RawNode} (hM : OneVoice M) (hn : n.Fresh M) (hadv : n.advancec=true)
    (hready : n.readyc=false) (h : n.rn.advance n.rd=.ok rn) :
    Fresh M { n with rn := rn, rd := Ready.none, advancec := false } := by
  obtain ⟨r,hr,h⟩ := bind_eq_ok.mp h
  cases h
  obtain ⟨ho,hf⟩ := Raft.advance_onward hM hn.follows hr
  refine ⟨hf,?_,fun h => absurd (h.symm.trans hready) Bool.true_eq_false.mp⟩
  have hsince := hn.since.onward ho
  have hconf : n.confirmed=if n.rd.hardState={} then n.rn.prevHardSt else n.rd.hardState := by
    unfold confirmed
    rw [hadv]
    split_ifs with h1 h2 h2
    · exact absurd h2 h1.2
    · rfl
    · rfl
    · exact absurd ⟨rfl,h2⟩ h1
  rw [hconf] at hsince
  exact hsince

/-- A select is a step of the RawNode, or none. -/
theorem Fresh.select {ms : List Message} {c : Case} {a : Answer} (hM : OneVoice (Heard ms))
    (hn : n.Fresh (Heard ms))
    (hready : n.readyc=true → n.advancec=false ∧ n.rn.readyWithoutAccept=.ok n.rd)
    (hc : c.Fits (Heard ms)) (h : n.select c=.ok (n',a)) (handed : List Ready) :
    n'.Fresh (Heard ms) ∧
      Contract.Steps (n.contract handed) (n'.contract (handed++a.ready?.toList)) := by
  have hstep : ∀ {m : Message} {rn : RawNode} {err : Option StepErr}, m.Stamped → Heard ms m →
      n.rn.stepRaft m=.ok (rn,err) → Fresh (Heard ms) { n with rn := rn } ∧
      Contract.Steps (n.contract handed) (contract { n with rn := rn } (handed++[])) := by
    intro m rn err hs hm h
    obtain ⟨⟨r,err'⟩,hr,h'⟩ := bind_eq_ok.mp h
    cases h'
    rw [List.append_nil]
    exact ⟨hn.moves n.propc ((Raft.step_touches (fun _ => hm) hs hr).retains hM hn.follows),
      .single (.step h)⟩
  have hstays : n.Fresh (Heard ms) ∧
      Contract.Steps (n.contract handed) (n.contract (handed++[])) := by
    rw [List.append_nil]
    exact ⟨hn,.refl⟩
  cases c with
  | propc m wait =>
    dsimp only [Node.select] at h
    split at h
    · obtain ⟨⟨rn,err⟩,h1,h⟩ := bind_eq_ok.mp h
      have ht : m.type=.msgProp := hc
      have hone := hstep (m := { m with fromId := n.rn.raft.id })
        (fun hs => by rw [ht] at hs; cases hs) (fun hl => by rw [ht] at hl; cases hl) h1
      cases wait <;> cases h <;> exact hone
    · cases h
      exact hstays
  | recvc m =>
    dsimp only [Node.select] at h
    split at h
    · obtain ⟨⟨rn,err⟩,h1,h⟩ := bind_eq_ok.mp h
      cases h
      exact hstep hc.1 hc.2 h1
    · cases h
      exact hstays
  | confc cc =>
    obtain ⟨⟨rn,cs⟩,h1,h⟩ := bind_eq_ok.mp h
    cases h
    obtain ⟨⟨r,cs'⟩,hr,h1'⟩ := bind_eq_ok.mp h1
    cases h1'
    refine ⟨hn.moves _ (Raft.applyConfChange_retains hM hn.follows hr),?_⟩
    change Contract.Steps _ (contract _ (handed++[]))
    rw [List.append_nil]
    exact .single (.applyConfChange h1)
  | tickc =>
    obtain ⟨rn,h1,h⟩ := bind_eq_ok.mp h
    cases h
    obtain ⟨r,hr,h1'⟩ := bind_eq_ok.mp h1
    cases h1'
    refine ⟨hn.moves _ ((Raft.tick_touches hr).retains hM hn.follows),?_⟩
    change Contract.Steps _ (contract _ (handed++[]))
    rw [List.append_nil]
    exact .single (.tick h1)
  | readyc =>
    dsimp only [Node.select] at h
    split at h
    · rename_i hr
      cases h
      obtain ⟨hadv,hrd⟩ := hready hr
      refine ⟨hn.accept hadv hrd,.single ?_⟩
      have hout : (n.contract handed).out=none := by
        unfold contract
        rw [hadv]
        rfl
      exact .ready hout (hn.armed hr hadv) (bind_eq_ok.mpr ⟨n.rd,hrd,rfl⟩)
    · cases h
      exact hstays
  | advancec =>
    dsimp only [Node.select] at h
    split at h
    · rename_i hadv
      obtain ⟨rn,h1,h⟩ := bind_eq_ok.mp h
      cases h
      have hnot : n.readyc=false := by
        cases hr : n.readyc with
        | false => rfl
        | true => exact absurd (hadv.symm.trans (hready hr).1) Bool.true_eq_false.mp
      refine ⟨hn.advance hM hadv hnot h1,?_⟩
      have hout : (n.contract handed).out=some n.rd := by
        unfold contract
        rw [hadv]
        rfl
      change Contract.Steps _ (contract _ (handed++[]))
      rw [List.append_nil]
      exact .single (.advance hout h1)
    · cases h
      exact hstays
  | status =>
    cases h
    exact hstays
  | stop =>
    cases h
    exact ⟨⟨hn.follows,hn.since,hn.armed⟩,hstays.2⟩

theorem Armed.contract (h : n.Armed n') (handed : List Ready) :
    n'.contract handed=n.contract handed := by
  unfold Node.contract
  rw [h.rn,h.advancec]
  split_ifs with hadv
  · rw [h.rd hadv]
  · rfl

theorem Fresh.act {ms : List Message} {d : Deed} {a : Answer} (hM : OneVoice (Heard ms))
    (hn : n.Fresh (Heard ms)) (hd : ∀ m, d.message=some m → m.Stamped ∧ m ∈ ms)
    (h : n.act d=.ok (n',a)) (handed : List Ready) : n'.Fresh (Heard ms) ∧
      Contract.Steps (n.contract handed) (n'.contract (handed++a.ready?.toList)) := by
  have hstays : n.Fresh (Heard ms) ∧
      Contract.Steps (n.contract handed) (n.contract (handed++[])) := by
    rw [List.append_nil]
    exact ⟨hn,.refl⟩
  cases d with
  | call q =>
    dsimp only [Node.act,Node.call] at h
    split at h
    · cases h
      exact hstays
    · rename_i c hcase
      split at h
      · cases h
        exact hstays
      · obtain ⟨n1,h1,h⟩ := bind_eq_ok.mp h
        obtain ⟨hn1,ha⟩ := hn.arm h1
        rw [← ha.contract handed]
        refine hn1.select hM (fun hr => ?_) (Request.case_fits hcase ?_) h handed
        · rw [ha.advancec,ha.rn]
          exact ha.ready hr
        · rintro m rfl
          exact hd m rfl
  | write st =>
    cases h
    unfold Node.write
    change _ ∧ Contract.Steps _ (Node.contract _ (handed++[]))
    rw [List.append_nil]
    split
    · rename_i hadv
      have ho : Raft.Onward n.rn.raft (n.rn.raft.setLog { n.rn.raft.raftLog with storage := st }) :=
        .same rfl rfl rfl rfl rfl rfl rfl
      refine ⟨⟨hn.follows,hn.since.onward ho,fun _ h => absurd (hadv.symm.trans h)
        Bool.true_eq_false.mp⟩,.single (.write st ?_)⟩
      unfold contract
      rw [hadv]
      exact Option.some_ne_none _
    · exact ⟨hn,.refl⟩

/-- A run of the loop is a run of the RawNode, with the same Readys. -/
theorem Fresh.run {ms : List Message} {ds : List Deed} {as : List Answer}
    (hM : OneVoice (Heard ms)) (hn : n.Fresh (Heard ms))
    (hds : ∀ d ∈ ds, ∀ m, d.message=some m → m.Stamped ∧ m ∈ ms)
    (h : n.run ds=.ok (n',as)) (handed : List Ready) :
    Contract.Steps (n.contract handed) (n'.contract (handed++as.filterMap Answer.ready?)) := by
  induction ds generalizing n as handed with
  | nil =>
    cases h
    rw [List.filterMap_nil,List.append_nil]
  | cons d ds ih =>
    obtain ⟨⟨n1,a⟩,h1,h⟩ := bind_eq_ok.mp h
    obtain ⟨⟨n2,as'⟩,h2,h⟩ := bind_eq_ok.mp h
    cases h
    obtain ⟨hn1,hone⟩ := hn.act hM (hds d List.mem_cons_self) h1 handed
    have hrest := ih hn1 (fun d hd => hds d (List.mem_cons_of_mem _ hd)) h2
      (handed++a.ready?.toList)
    refine hone.trans ?_
    rw [List.append_assoc] at hrest
    cases ha : a.ready? with
    | none =>
      rw [ha] at hrest
      rw [List.filterMap_cons_none ha]
      exact hrest
    | some rd =>
      rw [ha] at hrest
      rw [List.filterMap_cons_some ha]
      exact hrest

theorem Fresh.start {rn : RawNode} (h : Session.Start { rn := rn }) : Fresh M { rn := rn } := by
  suffices hrn : rn.raft.lead=noNode ∧ rn.prevSoftSt=rn.raft.softState ∧
      rn.prevHardSt.Le rn.raft.hardState from
    ⟨fun _ => .inl hrn.1,⟨hrn.2.2,.inr (.inr (.inr (.inl hrn.2.1)))⟩,fun h => (by cases h)⟩
  cases h with
  | fresh _ h =>
    obtain ⟨r,hr,h⟩ := bind_eq_ok.mp h
    cases h
    exact ⟨(Raft.newRaft_spec hr).2.2.2.2.2.2.1,rfl,.refl _⟩
  | boot _ h hboot =>
    obtain ⟨r,hr,h⟩ := bind_eq_ok.mp h
    cases h
    obtain ⟨-,-,hstate,-,-,-,hlead,-⟩ := Raft.newRaft_spec hr
    obtain ⟨-,-,l,t,b,-,rfl⟩ := RawNode.bootstrap_spec hboot
    refine ⟨rfl,?_,.zero _⟩
    change SoftState.mk r.lead r.state=_
    rw [hlead,hstate]
    rfl

/-- In whatever order the calls of the application and the messages of the network arrive, the
event loop uses its RawNode as it is meant to be used, as long as messages have terms where they
need one and each term has one leader only.
In particular no Ready is handed out that has been overtaken by what happened while it waited. -/
theorem run_contract {rn : RawNode} {ds : List Deed} {as : List Answer}
    (hrn : Session.Start { rn := rn }) (hstamped : ∀ m ∈ ds.filterMap Deed.message, m.Stamped)
    (hvoice : OneVoice (· ∈ ds.filterMap Deed.message)) (h : run { rn := rn } ds=.ok (n,as)) :
    Contract.Steps { rn := rn }
      ⟨n.rn,if n.advancec then some n.rd else none,as.filterMap Answer.ready?⟩ := by
  have hds : ∀ d ∈ ds, ∀ m, d.message=some m →
      m.Stamped ∧ m ∈ ds.filterMap Deed.message := by
    intro d hd m hm
    have hmem := List.mem_filterMap.mpr ⟨d,hd,hm⟩
    exact ⟨hstamped m hmem,hmem⟩
  exact (Fresh.start hrn).run hvoice.heard hds h []

end

section

local instance contractWire : Raftpb := Wire.small

/-- The Ready with the requests for votes is not received before node 1 is elected, nor that
of the new leader before a proposal. -/
def overtaken : List Deed :=
  [.call .campaign,
  .call (.step { type := .msgVoteResp, toId := 1, fromId := 2, term := 1 }),
  .call (.propose [7]),
  .call .ready,
  .write ⟨{},{ confState := { voters := [1,2] } },[default,
    { (default : Entry) with term := 1, index := 1 },
    { (default : Entry) with term := 1, index := 2, data := [7] }],List.cons_ne_nil _ _⟩,
  .call .ready,
  .call .advance]

theorem run_contract_overtaken : ∃ (rn : RawNode) (n : Node) (as : List Answer),
    RawNode.newRawNode Session.pairConfig []=.ok rn ∧ run { rn := rn } overtaken=.ok (n,as) ∧
    (as.filterMap Answer.ready?).map (fun rd => rd.entries.length)=[2] ∧
    Contract.Steps { rn := rn } ⟨n.rn,none,as.filterMap Answer.ready?⟩ := by
  obtain ⟨rn,n,as,hrn,hrun,hadv,hlen⟩ : ∃ rn n as,
      RawNode.newRawNode Session.pairConfig []=.ok rn ∧
      run { rn := rn } overtaken=.ok (n,as) ∧ n.advancec=false ∧
      (as.filterMap Answer.ready?).map (fun rd => rd.entries.length)=[2] :=
    ⟨_,_,_,rfl,rfl,by decide +kernel,by decide +kernel⟩
  have hst : ∀ m ∈ overtaken.filterMap Deed.message, m.Stamped := by
    intro m hm
    cases List.mem_singleton.mp hm
    exact fun _ => Nat.one_ne_zero
  have hvoice : OneVoice (· ∈ overtaken.filterMap Deed.message) := by
    intro m m' hm _ hl
    cases List.mem_singleton.mp hm
    cases hl
  have hsteps := run_contract (.fresh ⟨by decide,by decide⟩ hrn) hst hvoice hrun
  rw [hadv] at hsteps
  exact ⟨rn,n,as,hrn,hrun,hlen,hsteps⟩

end

end Node

end RaftTesting
