import RaftTesting.Node.Host
import RaftTesting.Node.Session
import RaftTesting.Transition.Touch

namespace RaftTesting

theorem RaftLog.append_maxNextEntsSize {l l' : RaftLog} {es : List Entry} (h : l.append es=.ok l') :
    l'.maxNextEntsSize=l.maxNextEntsSize := by
  unfold append at h
  split at h
  · cases h
    rfl
  · split at h
    · cases h
    · obtain ⟨u,-,h⟩ := bind_eq_ok.mp h
      cases h
      rfl

theorem RaftLog.maybeAppend_maxNextEntsSize {l l' : RaftLog} {i t k : Nat} {ents : List Entry}
    {last : Option Nat} (h : l.maybeAppend i t k ents=.ok (l',last)) :
    l'.maxNextEntsSize=l.maxNextEntsSize := by
  unfold maybeAppend at h
  split at h
  · obtain ⟨l1,h1,h⟩ := bind_eq_ok.mp h
    cases h
    have hl1 : l1.maxNextEntsSize=l.maxNextEntsSize := by
      unfold appendFrom at h1
      split_ifs at h1
      · cases h1
        rfl
      · exact append_maxNextEntsSize h1
    rw [commitTo_fst]
    exact hl1
  · cases h
    rfl

namespace Raft

/-- What happens to a node together with the application around it. About the log only the
limit is said. -/
inductive HostTouch [Raftpb] (M : Message → Prop) : Raft → Raft → Prop
  | touch {r r'} : Touch M r r' → HostTouch M r r'
  | clock {r} (e h : Nat) : HostTouch M r { r with electionElapsed := e, heartbeatElapsed := h }
  | install {r} (t : Tracked) : HostTouch M r (r.installConfig t)
  | log {r} (l : RaftLog) (u : Nat) : l.maxNextEntsSize=r.raftLog.maxNextEntsSize →
      HostTouch M r { r with raftLog := l, uncommittedSize := u }
  | flush {r} (rss : List ReadState) : HostTouch M r { r with msgs := [], readStates := rss }

abbrev HostTouches [Raftpb] (M : Message → Prop) : Raft → Raft → Prop :=
  Relation.ReflTransGen (HostTouch M)

section

variable [Raftpb] {M : Message → Prop} {r r' : Raft}

theorem Touches.host (h : Touches M r r') : HostTouches M r r' :=
  Relation.ReflTransGen.mono (fun _ _ h => HostTouch.touch h) _ _ h

theorem TickTouches.host (h : TickTouches M r r') : HostTouches M r r' := by
  refine Relation.ReflTransGen.mono (fun _ _ h => ?_) _ _ h
  cases h with
  | touch h => exact .touch h
  | clock e h => exact .clock e h

theorem HostTouch.setLog (l : RaftLog) (hl : l.maxNextEntsSize=r.raftLog.maxNextEntsSize) :
    HostTouch M r (r.setLog l) := .log l r.uncommittedSize hl

/-- All that an act can do to a raft: what it does on its own, whatever it is sent, a message
stepped, or a configuration change. -/
inductive Effect (M : Message → Prop) (r : Raft) : Raft → Prop
  | own {r1 : Raft} {l l' : RaftLog} {u : Nat} (hl : l.maxNextEntsSize=r.raftLog.maxNextEntsSize)
      (h : ∀ N : Message → Prop, TickTouches N { r with raftLog := l, uncommittedSize := u } r1)
      (hl' : l'.maxNextEntsSize=r1.raftLog.maxNextEntsSize) : Effect M r (r1.setLog l')
  | flush (rss : List ReadState) : Effect M r { r with msgs := [], readStates := rss }
  | step {r' : Raft} {m : Message} {err : Option StepErr} (hm : M m) (h : r.step m=.ok (r',err)) :
      Effect M r r'
  | conf {r' : Raft} {cc : ConfChangeV2} {cs : ConfState} (h : r.applyConfChange cc=.ok (r',cs)) :
      Effect M r r'

theorem Effect.log (l : RaftLog) (hl : l.maxNextEntsSize=r.raftLog.maxNextEntsSize) :
    Effect M r (r.setLog l) :=
  .own (l := r.raftLog) (u := r.uncommittedSize) rfl (fun _ => .refl) hl

theorem Effect.tick (h : r.tick=.ok r') : Effect M r r' :=
  .own (l := r.raftLog) (u := r.uncommittedSize) rfl (fun _ => tick_touches h) rfl

theorem Effect.advance {rd : Ready} (h : r.advance rd=.ok r') : Effect M r r' := by
  obtain ⟨l,r1,hl,h1,rfl⟩ := advance_touches h
  have hmax : l.maxNextEntsSize=r.raftLog.maxNextEntsSize := by rw [hl.1]
  have hstab : (rd.stabilize r1.raftLog).maxNextEntsSize=r1.raftLog.maxNextEntsSize := by
    rw [rd.stabilize_eq]
  rcases h1 with h1 | ⟨-,-,u,l',hl',h1⟩
  · refine .own (l := l) (u := r1.uncommittedSize) hmax (fun N => ?_) hstab
    rw [← h1]
  · exact .own ((RaftLog.append_maxNextEntsSize hl').trans hmax) (fun N => (h1 N).tick) hstab

theorem Effect.touches (hst : ∀ m, M m → m.Stamped) (h : Effect M r r') : HostTouches M r r' := by
  cases h with
  | own hl h hl' => exact .head (.log _ _ hl) (.tail (h M).host (.setLog _ hl'))
  | flush rss => exact .single (.flush rss)
  | step hm h => exact (step_touches (fun _ => hm) (hst _ hm) h).host
  | conf h =>
    obtain ⟨t,-,h⟩ := applyConfChange_touches (S := M) h
    exact .head (.install t) h.host

end

/-- A leader takes itself for the leader, a candidate nobody. -/
structure Aware (r : Raft) : Prop where
  leader : r.state=.stateLeader → r.lead=r.id
  candidate : r.state=.stateCandidate ∨ r.state=.statePreCandidate → r.lead=noNode

/-- Where the leader that the second node knows of comes from. -/
def Named (M : Message → Prop) (r r' : Raft) : Prop :=
  Vouched M r'.term r'.lead ∨ r'.state=.stateLeader ∨ r'.lead=r.lead ∧ r'.term=r.term

section

variable [Raftpb] {M : Message → Prop} {r r' r'' : Raft}

theorem HostTouch.aware (hr : r.Aware) (h : HostTouch M r r') : r'.Aware := by
  have hfollower : ∀ {x : Raft}, x.state=.stateFollower → x.Aware := by
    intro x hx
    refine ⟨fun hs => ?_,fun hs => ?_⟩
    · cases hx.symm.trans hs
    · rcases hs with hs | hs <;> cases hx.symm.trans hs
  cases h with
  | touch h =>
    cases h with
    | post h =>
      rw [h.same]
      exact ⟨hr.leader,hr.candidate⟩
    | follow => exact hfollower rfl
    | preStand => exact ⟨fun hs => (by cases hs),fun _ => rfl⟩
    | stand => exact ⟨fun hs => (by cases hs),fun _ => rfl⟩
    | rise => exact ⟨fun _ => rfl,fun hs => by rcases hs with hs | hs <;> cases hs⟩
    | hear _ _ _ hs => exact hfollower hs
    | poll | pend | grow | release | commit | store | vote | restore | aim | abort =>
      exact ⟨hr.leader,hr.candidate⟩
  | clock | install | log | flush => exact ⟨hr.leader,hr.candidate⟩

theorem Named.touch (hr : Named M r r') (h : HostTouch M r' r'') : Named M r r'' := by
  cases h with
  | touch h =>
    cases h with
    | post h =>
      rw [h.same]
      exact hr
    | follow _ hv => exact .inl hv
    | preStand => exact .inl (.inl rfl)
    | stand => exact .inl (.inl rfl)
    | rise => exact .inr (.inl rfl)
    | hear hm hl ht _ => exact .inl (.inr ⟨_,hm,hl,ht,rfl⟩)
    | poll | pend | grow | release | commit | store | vote | restore | aim | abort => exact hr
  | clock | install | log | flush => exact hr

theorem HostTouches.aware (hr : r.Aware) (h : HostTouches M r r') : r'.Aware ∧ Named M r r' := by
  induction h with
  | refl => exact ⟨hr,.inr (.inr ⟨rfl,rfl⟩)⟩
  | tail _ h ih => exact ⟨h.aware ih.1,ih.2.touch h⟩

end

end Raft

section

variable [Raftpb]

/-- Applying an entry changes the node by the configuration change that the entry holds, if it
holds one. -/
theorem Host.applyEntry_cases {H H' : Host} {e : Entry} (h : H.applyEntry e=.ok H') :
    H'=H ∨ ∃ cc r cs, H.rn.raft.applyConfChange cc=.ok (r,cs) ∧ H'={ H with rn.raft := r } := by
  obtain ⟨cc,-,he⟩ := bind_eq_ok.mp h
  cases cc with
  | none =>
    cases he
    exact .inl rfl
  | some cc =>
    obtain ⟨⟨rn,cs⟩,h1,he⟩ := bind_eq_ok.mp he
    cases he
    obtain ⟨⟨r,cs'⟩,hr,h1⟩ := bind_eq_ok.mp h1
    cases h1
    exact .inr ⟨cc,r,cs,hr,rfl⟩

theorem Host.Does.effect {H H' : Host} {e : Event} {ms : List Message} (h : H.Does e H' ms) :
    Raft.Effect (fun m => e.message H.rn.raft.id=some m) H.rn.raft H'.rn.raft := by
  cases h with
  | stay => exact .log _ rfl
  | step hm hr => exact .step hm hr
  | tick hr => exact .tick hr
  | ready _ hr =>
    obtain ⟨rd,-,hr⟩ := bind_eq_ok.mp hr
    cases hr
    exact .flush _
  | save => exact .log _ rfl
  | apply _ he =>
    rcases applyEntry_cases he with rfl | ⟨cc,r,cs,hr,rfl⟩
    · exact .log _ rfl
    · exact .conf hr
  | advance _ _ _ hr =>
    obtain ⟨r,hadv,h1⟩ := bind_eq_ok.mp hr
    cases h1
    exact .advance hadv

theorem Session.act_tick {x x' : Session} (h : x.act .tick=.ok x') :
    x.rn.raft.tick=.ok x'.rn.raft := by
  obtain ⟨rn,h1,h⟩ := bind_eq_ok.mp h
  cases h
  obtain ⟨r,hr,h1⟩ := bind_eq_ok.mp h1
  cases h1
  exact hr

theorem Session.Does.effect {x x' : Session} {a : Act} (h : x.Does a x') :
    Raft.Effect (fun m => a=.step m) x.rn.raft x'.rn.raft := by
  cases h with
  | stay => exact .log _ rfl
  | step hr => exact .step rfl hr
  | tick hr => exact .tick hr
  | applyConfChange hr => exact .conf hr
  | ready => exact .flush _
  | save | append | compact => exact .log _ rfl
  | advance _ _ hr =>
    obtain ⟨r,hadv,h1⟩ := bind_eq_ok.mp hr
    cases h1
    exact .advance hadv

end

end RaftTesting
