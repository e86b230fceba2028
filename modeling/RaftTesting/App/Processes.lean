import Mathlib.Data.List.Count
import RaftTesting.App.Loop
import RaftTesting.Protocol.Wire

namespace RaftTesting

/-- Where a call of Stop stands: the check of IsRunning, the send to doneChan, the Stop of the
protocol node and SetRunning(false). -/
inductive StopPc where
  | check
  | send
  | stopNode
  | clear
  deriving DecidableEq

/-- Who has called Stop: raftloop through applyEntries, somebody outside, or Restart. -/
inductive Caller where
  | applyEntries
  | outside
  | restart
  deriving DecidableEq

/-- The processes around the unbuffered doneChan, by the statement that comes next. A call from
outside is idle until it is made. -/
inductive Proc where
  | top
  | select
  | apply (ents : List Entry)
  | advance
  | idle (restart : Bool)
  | stop (pc : StopPc) (caller : Caller)
  | reset
  | startCheck
  | startNode
  | startRunning
  | startLoop
  | returned
  deriving DecidableEq

/-- What the caller of Stop does next. -/
def Caller.next : Caller → Proc
  | .applyEntries => .advance
  | .outside => .returned
  | .restart => .reset

/-- A node with its goroutines. The protocol node is a goroutine too, whose calls return. -/
structure Processes where
  app : App
  running : Bool
  procs : List Proc

/-- What happens next: the protocol node goes on, process i takes the step that is its only
one, raftloop i takes a tick or a Ready, process i hands its struct over to raftloop j,
ResetStorage fails, or StartNode returns. -/
inductive Choice where
  | node (rn : RawNode)
  | run (i : Nat)
  | tick (i : Nat)
  | ready (i : Nat) (ents : List Entry)
  | handOver (i j : Nat)
  | resetFails (i : Nat)
  | startNode (i : Nat) (rn : RawNode)

namespace Processes

def setNode (s : Processes) (rn : RawNode) : Processes := { s with app := { s.app with rn := rn } }

def setProc (s : Processes) (i : Nat) (p : Proc) : Processes := { s with procs := s.procs.set i p }

section

variable [Raftpb] [Gob]

/-- applyEntries in process i. Own removal calls Stop; a panic and log.Fatal end the program. -/
def apply (s : Processes) (i : Nat) (ents : List Entry) : Processes :=
  let app := s.app.applyEntries ents
  match app.halted with
  | none => { s with app := app }.setProc i .advance
  | some .stopping =>
    { s with app := { app with halted := none } }.setProc i (.stop .check .applyEntries)
  | some _ => { s with app := app, procs := [] }

/-- The next statement of process i. A raftloop of a node that is not running goes round. -/
def next (s : Processes) (i : Nat) : Proc → Option Processes
  | .top => if s.running then some (s.setProc i .select) else some s
  | .apply ents => some (s.apply i ents)
  | .advance => some (s.setProc i .top)
  | .idle restart => some (s.setProc i (.stop .check (if restart then .restart else .outside)))
  | .stop .check caller => some (s.setProc i (if s.running then .stop .send caller else caller.next))
  | .stop .stopNode caller => some (s.setProc i (.stop .clear caller))
  | .stop .clear caller => some ({ s with running := false }.setProc i caller.next)
  | .reset => some (s.setProc i .startCheck)
  | .startCheck => some (s.setProc i (if s.running then .returned else .startNode))
  | .startRunning => some ({ s with running := true }.setProc i .startLoop)
  | .startLoop => some { s with procs := s.procs.set i .returned++[.top] }
  | .select | .stop .send _ | .startNode | .returned => none

/-- The state after a choice, none if it cannot be taken. -/
def take (s : Processes) : Choice → Option Processes
  | .node rn => some (s.setNode rn)
  | .run i => (s.procs[i]?).bind (s.next i)
  | .tick i => if s.procs[i]?=some .select then some (s.setProc i .top) else none
  | .ready i ents => if s.procs[i]?=some .select then some (s.setProc i (.apply ents)) else none
  | .handOver i j =>
    match s.procs[i]?,s.procs[j]? with
    | some (.stop .send caller),some .select =>
      some ((s.setProc i (.stop .stopNode caller)).setProc j .returned)
    | _,_ => none
  | .resetFails i => if s.procs[i]?=some .reset then some (s.setProc i .returned) else none
  | .startNode i rn =>
    if s.procs[i]?=some .startNode then some ((s.setNode rn).setProc i .startRunning) else none

def run (s : Processes) (cs : List Choice) : Option Processes := cs.foldlM take s

/-- A started node, and the calls of Stop and Restart that are going to be made. -/
def started (app : App) (calls : List Bool) : Processes :=
  { app := app, running := true, procs := .top::calls.map .idle }

/-- Process i waits for a receiver on doneChan. -/
def SendsAt (s : Processes) (i : Nat) : Prop := ∃ caller, s.procs[i]?=some (.stop .send caller)

/-- Some process waits for a receiver, and goes on waiting: whatever happens, no raftloop
comes back to its select. -/
def Stuck (s : Processes) : Prop := ∃ i, s.SendsAt i ∧
  ∀ cs s', s.run cs=some s' → s'.SendsAt i ∧ .select ∉ s'.procs

/-- The entry removes the node itself. -/
def Removes (id : Nat) (e : Entry) : Prop :=
  e.type=.entryConfChange ∧ (App.confChange e).type=.removeNode ∧ (App.confChange e).nodeID=id

end

end Processes

namespace Proc

def sending : Proc → Bool
  | .stop .send _ => true
  | _ => false

/-- Stop has been received, but is not finished. -/
def received : Proc → Bool
  | .stop .stopNode _ | .stop .clear _ => true
  | _ => false

/-- A raftloop, or one that is about to be started. -/
def live : Proc → Bool
  | .top | .select | .apply _ | .advance | .startLoop => true
  | _ => false

end Proc

namespace Processes

section

variable [Raftpb] [Gob]

omit [Raftpb] [Gob] in
/-- Process i is about to pass the check of Stop while another Stop is between its own check
and its end. -/
def overlaps (s : Processes) (i : Nat) : Bool :=
  match s.procs[i]? with
  | some (.stop .check _) => s.running && s.procs.any (fun p => p.sending || p.received)
  | _ => false

omit [Gob] in
/-- No batch removes the node itself, and no two calls of Stop are under way at once. -/
def Calm (s : Processes) : Choice → Prop
  | .ready _ ents => ∀ e∈ents, ¬Removes s.app.id e
  | .run i => s.overlaps i=false
  | _ => True

omit [Gob] in
instance decidableRemoves (id : Nat) (e : Entry) : Decidable (Removes id e) :=
  inferInstanceAs (Decidable (_ ∧ _ ∧ _))

omit [Gob] in
instance decidableCalm (s : Processes) : (c : Choice) → Decidable (s.Calm c)
  | .ready _ ents => inferInstanceAs (Decidable (∀ e∈ents, ¬Removes s.app.id e))
  | .run i => inferInstanceAs (Decidable (s.overlaps i=false))
  | .node _ | .tick _ | .handOver _ _ | .resetFails _ | .startNode _ _ => .isTrue trivial

/-- Every choice of a run meets a condition in the state it is made in. -/
def Along (P : Processes → Choice → Prop) : Processes → List Choice → Prop
  | _,[] => True
  | s,c::cs => P s c ∧
      match s.take c with
      | some s' => Along P s' cs
      | none => True

instance decidableAlong (P : Processes → Choice → Prop) [∀ s c, Decidable (P s c)]
    (s : Processes) : (cs : List Choice) → Decidable (s.Along P cs)
  | [] => .isTrue trivial
  | c::cs =>
    have : Decidable (match s.take c with
        | some s' => Along P s' cs
        | none => True) :=
      match s.take c with
      | some s' => decidableAlong P s' cs
      | none => .isTrue trivial
    inferInstanceAs (Decidable (P s c ∧ _))

variable {s s' : Processes} {c : Choice} {cs : List Choice}

theorem run_cons (s : Processes) (c : Choice) (cs : List Choice) :
    s.run (c::cs)=(s.take c).bind (·.run cs) := rfl

/-- What every choice keeps is kept by a run. -/
theorem run_induct {P : Processes → Choice → Prop} {I : Processes → Prop}
    (hstep : ∀ s c s', I s → P s c → s.take c=some s' → I s') (hs : I s) (hcs : s.Along P cs)
    (h : s.run cs=some s') : I s' := by
  induction cs generalizing s with
  | nil =>
    cases h
    exact hs
  | cons c cs ih =>
    obtain ⟨s1,h1,h⟩ := Option.bind_eq_some_iff.mp h
    obtain ⟨hP,hrest⟩ := hcs
    rw [h1] at hrest
    exact ih (hstep s c s1 hs hP h1) hrest h

end

section

variable {α : Type} {l : List α} {i : Nat} {a b : α}

/-- Replacing one element moves a count by what the two elements say. -/
theorem countP_replace (f : α → Bool) (h : l[i]?=some a) :
    (l.set i b).countP f+(f a).toNat=l.countP f+(f b).toNat := by
  obtain ⟨hlt,rfl⟩ := List.getElem?_eq_some_iff.mp h
  have hpos : f l[i]=true → 0<l.countP f := fun hf =>
    List.countP_pos_iff.mpr ⟨_,List.getElem_mem hlt,hf⟩
  rw [List.countP_set hlt]
  cases hfa : f l[i] <;> cases hfb : f b <;> simp_all

theorem countP_eq_zero_of {f : α → Bool} (h : ∀ a∈l, f a=false) : l.countP f=0 :=
  List.countP_eq_zero.mpr (fun a ha => by simp [h a ha])

end

section

variable [Raftpb] {s s' : Processes} {i : Nat} {p q : Proc}

/-- What a process may be about to do: no batch removes the node, and raftloop is not in Stop. -/
def Harmless (id : Nat) : Proc → Prop
  | .apply ents => ∀ e∈ents, ¬Removes id e
  | .stop _ .applyEntries => False
  | _ => True

/-- At most one Stop is between its check and its end. While one waits for a receiver, the node
is running, and then there is a raftloop or one is about to start. -/
structure Inv (s : Processes) : Prop where
  halted : s.app.halted=none ∨ s.procs=[]
  harmless : ∀ p∈s.procs, Harmless s.app.id p
  one : s.procs.countP Proc.sending+s.procs.countP Proc.received≤1
  waited : 0<s.procs.countP Proc.sending → s.running=true
  loops : s.running=true → s.procs=[] ∨
    0<s.procs.countP Proc.received+s.procs.countP Proc.live

/-- The program has come to its end. -/
theorem Inv.exited (h : s.procs=[]) : s.Inv := by
  refine ⟨.inr h,?_,?_,?_,fun _ => .inl h⟩
  · intro p hp
    rw [h] at hp
    cases hp
  · rw [h]
    exact Nat.zero_le 1
  · rw [h]
    nofun

theorem Inv.going (h : s.Inv) (hp : s.procs[i]?=some p) : s.app.halted=none := by
  rcases h.halted with hn | hn
  · exact hn
  · rw [hn] at hp
    cases hp

omit [Raftpb] in
theorem sending_or_received (p : Proc) : p.sending.toNat+p.received.toNat≤1 := by
  cases p with
  | stop pc caller => cases pc <;> exact Nat.le_of_ble_eq_true rfl
  | _ => exact Nat.zero_le 1

/-- Only the number of the running node and whether it goes on are looked at. -/
theorem Inv.setApp (h : s.Inv) {app : App} (hid : app.id=s.app.id) (hhalted : app.halted=none) :
    ({ s with app := app } : Processes).Inv where
  halted := .inl hhalted
  harmless := by
    intro p hp
    change Harmless app.id p
    rw [hid]
    exact h.harmless p hp
  one := h.one
  waited := h.waited
  loops := h.loops

theorem Inv.harmless_set (h : s.Inv) (hp' : Harmless s.app.id q) :
    ∀ p∈s.procs.set i q, Harmless s.app.id p := by
  intro p hp
  rcases List.mem_or_eq_of_mem_set hp with hp | rfl
  · exact h.harmless p hp
  · exact hp'

/-- A process goes on, with the flag as it is. -/
theorem Inv.setProc (h : s.Inv) (hp : s.procs[i]?=some p) (hp' : Harmless s.app.id q)
    (hbusy : q.sending.toNat+q.received.toNat≤p.sending.toNat+p.received.toNat ∨
      s.procs.countP Proc.sending+s.procs.countP Proc.received=0)
    (hsend : q.sending=true → s.running=true)
    (hlive : p.received.toNat+p.live.toNat≤q.received.toNat+q.live.toNat) :
    (s.setProc i q).Inv := by
  have hs := countP_replace (b := q) Proc.sending hp
  have hr := countP_replace (b := q) Proc.received hp
  have hl := countP_replace (b := q) Proc.live hp
  have hone := h.one
  have hp1 := sending_or_received q
  refine ⟨?_,h.harmless_set hp',?_,?_,?_⟩
  · exact .inl (h.going hp)
  · change (s.procs.set i q).countP _+(s.procs.set i q).countP _≤1
    omega
  · intro hpos
    change 0<(s.procs.set i q).countP _ at hpos
    change s.running=true
    cases hs' : q.sending with
    | true => exact hsend hs'
    | false =>
      rw [hs'] at hs
      apply h.waited
      simp only [Bool.toNat_false] at hs
      omega
  · intro hrun
    rcases h.loops hrun with hn | hpos
    · rw [hn] at hp
      cases hp
    · right
      change 0<(s.procs.set i q).countP _+(s.procs.set i q).countP _
      omega

end

end Processes

namespace App

section

variable [Raftpb] [Gob] {n : App} {ents : List Entry}

theorem applyEntry_id (n : App) (e : Entry) : (n.applyEntry e).id=n.id := by
  unfold applyEntry
  cases e.type with
  | entryNormal =>
    dsimp only
    split_ifs
    · rfl
    · unfold set
      split <;> rfl
  | entryConfChange =>
    dsimp only [applyConfChange]
    split
    · rfl
    · split_ifs <;> rfl
  | entryConfChangeV2 => rfl

/-- Only the removal of the node itself makes applyEntries call Stop. -/
theorem applyEntry_stopping {e : Entry} (hn : n.halted=none)
    (h : (n.applyEntry e).halted=some .stopping) : Processes.Removes n.id e := by
  unfold applyEntry at h
  cases ht : e.type with
  | entryNormal =>
    rw [ht] at h
    dsimp only [publish] at h
    split_ifs at h
    · rw [hn] at h
      cases h
    · unfold set at h
      split at h <;> (rw [hn] at h; cases h)
  | entryConfChange =>
    rw [ht] at h
    dsimp only [publish,applyConfChange] at h
    split at h
    · cases h
    · split_ifs at h with hrem
      · exact ⟨ht,hrem⟩
      · rw [hn] at h
        cases h
  | entryConfChangeV2 =>
    rw [ht] at h
    dsimp only [publish] at h
    rw [hn] at h
    cases h

theorem applyLoop_stopping (hn : n.halted=none) (hents : ∀ e∈ents, ¬Processes.Removes n.id e) :
    (n.applyLoop ents).id=n.id ∧ (n.applyLoop ents).halted≠some .stopping := by
  induction ents generalizing n with
  | nil =>
    refine ⟨rfl,?_⟩
    rw [applyLoop,hn]
    nofun
  | cons e es ih =>
    have hid := n.applyEntry_id e
    have he : (n.applyEntry e).halted≠some .stopping := fun h =>
      hents e (List.mem_cons_self ..) (applyEntry_stopping hn h)
    dsimp only [applyLoop]
    split_ifs with hh
    · exact ⟨hid,he⟩
    · have hn' : (n.applyEntry e).halted=none := by simpa using hh
      have hrest := ih hn' (fun e' he' => by
        rw [hid]
        exact hents e' (List.mem_cons_of_mem _ he'))
      exact ⟨hrest.1.trans hid,hrest.2⟩

theorem applyEntries_stopping (hn : n.halted=none) (hents : ∀ e∈ents, ¬Processes.Removes n.id e) :
    (n.applyEntries ents).id=n.id ∧ (n.applyEntries ents).halted≠some .stopping := by
  cases ents with
  | nil =>
    refine ⟨rfl,?_⟩
    rw [applyEntries,hn]
    nofun
  | cons e es =>
    dsimp only [applyEntries]
    split_ifs
    · exact ⟨rfl,nofun⟩
    · apply applyLoop_stopping hn
      intro e' he'
      exact hents e' (List.mem_of_mem_drop he')
    · exact applyLoop_stopping hn hents

end

end App

namespace Processes

section

variable [Raftpb] [Gob] {s s' : Processes} {i : Nat} {c : Choice} {cs : List Choice}

theorem Inv.apply {ents : List Entry} (h : s.Inv) (hp : s.procs[i]?=some (.apply ents)) :
    (s.apply i ents).Inv := by
  obtain ⟨hid,hstop⟩ := App.applyEntries_stopping (h.going hp)
    (h.harmless _ (List.mem_of_getElem? hp))
  unfold Processes.apply
  dsimp only
  cases hres : (s.app.applyEntries ents).halted with
  | none =>
    exact (h.setApp hid hres).setProc (q := .advance) hp trivial (.inl (Nat.le_refl _)) nofun
      (Nat.le_refl _)
  | some halt =>
    cases halt with
    | stopping => exact absurd hres hstop
    | panic | tooBig => exact Inv.exited rfl

omit [Gob] in
theorem Inv.next_harmless {caller : Caller} {pc : StopPc} (h : s.Inv)
    (hp : s.procs[i]?=some (.stop pc caller)) (pc' : StopPc) :
    Harmless s.app.id (.stop pc' caller) ∧ Harmless s.app.id caller.next ∧
      caller.next.sending=false ∧ caller.next.received=false := by
  have hcaller := h.harmless _ (List.mem_of_getElem? hp)
  cases caller with
  | applyEntries => exact hcaller.elim
  | outside | restart => exact ⟨trivial,trivial,rfl,rfl⟩

omit [Gob] in
/-- The Stop that ends was the only one. -/
theorem Inv.clear {caller : Caller} (h : s.Inv) (hp : s.procs[i]?=some (.stop .clear caller)) :
    ({ s with running := false }.setProc i caller.next : Processes).Inv := by
  obtain ⟨-,hnext,hns,hnr⟩ := h.next_harmless hp .clear
  have hs := countP_replace (b := caller.next) Proc.sending hp
  have hr := countP_replace (b := caller.next) Proc.received hp
  have hone := h.one
  rw [hns] at hs
  rw [hnr] at hr
  simp only [Proc.sending,Proc.received,Bool.toNat_false,Bool.toNat_true,Nat.add_zero] at hs hr
  refine ⟨.inl (h.going hp),h.harmless_set hnext,?_,?_,nofun⟩
  · change (s.procs.set i caller.next).countP _+(s.procs.set i caller.next).countP _≤1
    omega
  · intro hpos
    change 0<(s.procs.set i caller.next).countP _ at hpos
    omega

omit [Gob] in
theorem Inv.startRunning (h : s.Inv) (hp : s.procs[i]?=some .startRunning) :
    ({ s with running := true }.setProc i .startLoop : Processes).Inv := by
  have hs := countP_replace (b := .startLoop) Proc.sending hp
  have hr := countP_replace (b := .startLoop) Proc.received hp
  have hl := countP_replace (b := .startLoop) Proc.live hp
  have hone := h.one
  simp only [Proc.sending,Proc.received,Proc.live,Bool.toNat_false,Bool.toNat_true,Nat.add_zero]
    at hs hr hl
  refine ⟨.inl (h.going hp),h.harmless_set trivial,?_,fun _ => rfl,fun _ => .inr ?_⟩
  · change (s.procs.set i .startLoop).countP _+(s.procs.set i .startLoop).countP _≤1
    omega
  · change 0<(s.procs.set i .startLoop).countP _+(s.procs.set i .startLoop).countP _
    omega

omit [Gob] in
/-- A new raftloop takes the place of the one that was about to start. -/
theorem Inv.startLoop (h : s.Inv) (hp : s.procs[i]?=some .startLoop) :
    ({ s with procs := s.procs.set i .returned++[.top] } : Processes).Inv := by
  have hs := countP_replace (b := .returned) Proc.sending hp
  have hr := countP_replace (b := .returned) Proc.received hp
  have hone := h.one
  simp only [Proc.sending,Proc.received,Bool.toNat_false,Nat.add_zero] at hs hr
  refine ⟨.inl (h.going hp),?_,?_,?_,fun _ => .inr ?_⟩
  · intro p hp'
    rcases List.mem_append.mp hp' with hp' | hp'
    · exact h.harmless_set (q := .returned) trivial p hp'
    · rw [List.mem_singleton.mp hp']
      trivial
  · rw [List.countP_append,List.countP_append,hs,hr]
    exact hone
  · intro hpos
    rw [List.countP_append,hs] at hpos
    exact h.waited hpos
  · rw [List.countP_append,List.countP_append]
    exact Nat.lt_of_lt_of_le Nat.zero_lt_one
      (Nat.le_trans (Nat.le_add_left _ _) (Nat.le_add_left _ _))

/-- A process takes its next statement. -/
theorem Inv.next {p : Proc} (h : s.Inv) (hp : s.procs[i]?=some p)
    (hcalm : s.overlaps i=false) (ht : s.next i p=some s') : s'.Inv := by
  cases p with
  | top =>
    dsimp only [Processes.next] at ht
    split_ifs at ht with hrun
    · cases ht
      exact h.setProc (q := .select) hp trivial (.inl (Nat.le_refl _)) nofun (Nat.le_refl _)
    · cases ht
      exact h
  | apply ents =>
    cases ht
    exact h.apply hp
  | advance =>
    cases ht
    exact h.setProc (q := .top) hp trivial (.inl (Nat.le_refl _)) nofun (Nat.le_refl _)
  | idle restart =>
    cases ht
    cases restart <;>
      exact h.setProc hp trivial (.inl (Nat.le_refl _)) nofun (Nat.le_refl _)
  | reset =>
    cases ht
    exact h.setProc (q := .startCheck) hp trivial (.inl (Nat.le_refl _)) nofun (Nat.le_refl _)
  | startCheck =>
    cases ht
    cases s.running <;>
      exact h.setProc hp trivial (.inl (Nat.le_refl _)) nofun (Nat.le_refl _)
  | stop pc caller =>
    cases pc with
    | check =>
      cases ht
      obtain ⟨hsend,hnext,hns,hnr⟩ := h.next_harmless hp .send
      cases hrun : s.running with
      | true =>
        rw [overlaps,hp] at hcalm
        dsimp only at hcalm
        rw [hrun,Bool.true_and,List.any_eq_false] at hcalm
        have hfree (q : Proc) (hq : q∈s.procs) : q.sending=false ∧ q.received=false := by
          simpa using hcalm q hq
        have hzero : s.procs.countP Proc.sending+s.procs.countP Proc.received=0 := by
          rw [countP_eq_zero_of (fun q hq => (hfree q hq).1),
            countP_eq_zero_of (fun q hq => (hfree q hq).2)]
        exact h.setProc (q := .stop .send caller) hp hsend (.inr hzero) (fun _ => hrun)
          (Nat.le_refl _)
      | false =>
        refine h.setProc (q := caller.next) hp hnext (.inl ?_) ?_ (Nat.zero_le _)
        · rw [hns,hnr]
          exact Nat.zero_le _
        · rw [hns]
          nofun
    | send => cases ht
    | stopNode =>
      cases ht
      exact h.setProc (q := .stop .clear caller) hp (h.next_harmless hp .clear).1
        (.inl (Nat.le_refl _)) nofun (Nat.le_refl _)
    | clear =>
      cases ht
      exact h.clear hp
  | startRunning =>
    cases ht
    exact h.startRunning hp
  | startLoop =>
    cases ht
    exact h.startLoop hp
  | select | startNode | returned => cases ht

omit [Gob] in
/-- A raftloop takes the struct of the Stop that waits, and is gone. -/
theorem Inv.handOver {j : Nat} {caller : Caller} (h : s.Inv)
    (hi : s.procs[i]?=some (.stop .send caller)) (hj : s.procs[j]?=some .select) :
    ((s.setProc i (.stop .stopNode caller)).setProc j .returned).Inv := by
  have hne : i≠j := by
    rintro rfl
    rw [hi] at hj
    cases hj
  have hj' : (s.procs.set i (.stop .stopNode caller))[j]?=some .select := by
    rw [List.getElem?_set_ne hne]
    exact hj
  have hs := countP_replace (b := .stop .stopNode caller) Proc.sending hi
  have hr := countP_replace (b := .stop .stopNode caller) Proc.received hi
  have hs' := countP_replace (b := .returned) Proc.sending hj'
  have hr' := countP_replace (b := .returned) Proc.received hj'
  have hone := h.one
  simp only [Proc.sending,Proc.received,Bool.toNat_false,Bool.toNat_true,Nat.add_zero] at hs hr hs' hr'
  have hstop := h.harmless_set (i := i) (h.next_harmless hi .stopNode).1
  refine ⟨.inl (h.going hi),?_,?_,?_,fun _ => .inr ?_⟩
  · intro p hp
    rcases List.mem_or_eq_of_mem_set hp with hp | rfl
    · exact hstop p hp
    · trivial
  · change ((s.procs.set i _).set j _).countP _+((s.procs.set i _).set j _).countP _≤1
    omega
  · intro hpos
    change 0<((s.procs.set i _).set j _).countP _ at hpos
    omega
  · change 0<((s.procs.set i _).set j _).countP _+((s.procs.set i _).set j _).countP _
    omega

theorem Inv.take (h : s.Inv) (hcalm : s.Calm c) (ht : s.take c=some s') : s'.Inv := by
  cases c with
  | node rn =>
    cases ht
    exact ⟨h.halted,h.harmless,h.one,h.waited,h.loops⟩
  | run i =>
    obtain ⟨p,hp,ht⟩ := Option.bind_eq_some_iff.mp ht
    exact h.next hp hcalm ht
  | tick i =>
    dsimp only [Processes.take] at ht
    split_ifs at ht with hp
    cases ht
    exact h.setProc (q := .top) hp trivial (.inl (Nat.le_refl _)) nofun (Nat.le_refl _)
  | ready i ents =>
    dsimp only [Processes.take] at ht
    split_ifs at ht with hp
    cases ht
    exact h.setProc (q := .apply ents) hp hcalm (.inl (Nat.le_refl _)) nofun (Nat.le_refl _)
  | handOver i j =>
    dsimp only [Processes.take] at ht
    split at ht
    · rename_i hi hj
      cases ht
      exact h.handOver hi hj
    · cases ht
  | resetFails i =>
    dsimp only [Processes.take] at ht
    split_ifs at ht with hp
    cases ht
    exact h.setProc (q := .returned) hp trivial (.inl (Nat.le_refl _)) nofun (Nat.le_refl _)
  | startNode i rn =>
    dsimp only [Processes.take] at ht
    split_ifs at ht with hp
    cases ht
    have hnode : (s.setNode rn).Inv := ⟨h.halted,h.harmless,h.one,h.waited,h.loops⟩
    exact hnode.setProc (q := .startRunning) hp trivial (.inl (Nat.le_refl _)) nofun (Nat.le_refl _)

/-- Choices that bring some raftloop to its select, or end the program. -/
def Frees (s : Processes) (cs : List Choice) : Prop :=
  ∃ s', s.run cs=some s' ∧ (.select∈s'.procs ∨ s'.procs=[])

theorem frees_select (h : .select∈s.procs) : s.Frees [] := ⟨s,rfl,.inl h⟩

theorem frees_exited (h : s.procs=[]) : s.Frees [] := ⟨s,rfl,.inr h⟩

theorem Frees.cons (ht : s.take c=some s') (h : s'.Frees cs) : s.Frees (c::cs) := by
  obtain ⟨s2,hrun,hfree⟩ := h
  refine ⟨s2,?_,hfree⟩
  rw [run_cons,ht]
  exact hrun

theorem take_run {p : Proc} (hp : s.procs[i]?=some p) : s.take (.run i)=s.next i p := by
  rw [Processes.take,hp]
  rfl

omit [Raftpb] [Gob] in
theorem setProc_get {p : Proc} (hp : s.procs[i]?=some p) (p' : Proc) :
    (s.setProc i p').procs[i]?=some p' := by
  obtain ⟨hlt,-⟩ := List.getElem?_eq_some_iff.mp hp
  exact List.getElem?_set_self hlt

theorem frees_top (hrun : s.running=true) (hp : s.procs[i]?=some .top) : s.Frees [.run i] := by
  refine .cons ((take_run hp).trans (if_pos hrun)) (frees_select ?_)
  exact List.mem_of_getElem? (setProc_get hp .select)

theorem frees_advance (hrun : s.running=true) (hp : s.procs[i]?=some .advance) :
    s.Frees [.run i,.run i] :=
  .cons (take_run hp) (frees_top hrun (setProc_get hp .top))

/-- A live process of a running node gets to the select of a raftloop. -/
theorem Inv.frees {p : Proc} (h : s.Inv) (hrun : s.running=true) (hp : s.procs[i]?=some p)
    (hlive : p.live=true) : ∃ cs, s.Frees cs := by
  cases p with
  | select => exact ⟨[],frees_select (List.mem_of_getElem? hp)⟩
  | top => exact ⟨_,frees_top hrun hp⟩
  | advance => exact ⟨_,frees_advance hrun hp⟩
  | apply ents =>
    obtain ⟨-,hstop⟩ := App.applyEntries_stopping (h.going hp)
      (h.harmless _ (List.mem_of_getElem? hp))
    have ht : s.take (.run i)=some (s.apply i ents) := take_run hp
    unfold Processes.apply at ht
    dsimp only at ht
    cases hres : (s.app.applyEntries ents).halted with
    | none =>
      rw [hres] at ht
      exact ⟨_,.cons ht (frees_advance hrun (setProc_get hp .advance))⟩
    | some halt =>
      rw [hres] at ht
      cases halt with
      | stopping => exact absurd hres hstop
      | panic | tooBig => exact ⟨_,.cons ht (frees_exited rfl)⟩
  | startLoop =>
    refine ⟨[.run i,.run s.procs.length],.cons (take_run hp) (frees_top hrun ?_)⟩
    change (s.procs.set i .returned++[.top])[s.procs.length]?=some .top
    rw [List.getElem?_append_right (by rw [List.length_set]),List.length_set,Nat.sub_self]
    rfl
  | idle | stop | reset | startCheck | startNode | startRunning | returned => cases hlive

theorem Inv.not_stuck (h : s.Inv) : ¬s.Stuck := by
  rintro ⟨i,⟨caller,hi⟩,hall⟩
  have hsend : 0<s.procs.countP Proc.sending :=
    List.countP_pos_iff.mpr ⟨_,List.mem_of_getElem? hi,rfl⟩
  have hrun := h.waited hsend
  have hone := h.one
  have hlive : 0<s.procs.countP Proc.live := by
    rcases h.loops hrun with hn | hpos
    · rw [hn] at hi
      cases hi
    · omega
  obtain ⟨p,hp,hlive⟩ := List.countP_pos_iff.mp hlive
  obtain ⟨k,hk⟩ := List.mem_iff_getElem?.mp hp
  obtain ⟨cs,s',hs',hfree⟩ := h.frees hrun hk hlive
  obtain ⟨⟨caller',hi'⟩,hselect⟩ := hall cs s' hs'
  rcases hfree with hfree | hfree
  · exact hselect hfree
  · rw [hfree] at hi'
    cases hi'

omit [Gob] in
theorem started_inv (app : App) (calls : List Bool) (happ : app.halted=none) :
    (started app calls).Inv := by
  have hidle (f : Proc → Bool) (hf : ∀ b, f (.idle b)=false) : (calls.map Proc.idle).countP f=0 :=
    countP_eq_zero_of (fun p hp => by
      obtain ⟨b,-,rfl⟩ := List.mem_map.mp hp
      exact hf b)
  have hsend : (started app calls).procs.countP Proc.sending=0 := by
    rw [started,List.countP_cons,hidle Proc.sending (fun _ => rfl)]
    rfl
  have hrec : (started app calls).procs.countP Proc.received=0 := by
    rw [started,List.countP_cons,hidle Proc.received (fun _ => rfl)]
    rfl
  refine ⟨.inl happ,?_,?_,?_,fun _ => .inr ?_⟩
  · intro p hp
    rcases List.mem_cons.mp hp with rfl | hp
    · trivial
    · obtain ⟨b,-,rfl⟩ := List.mem_map.mp hp
      trivial
  · rw [hsend,hrec]
    exact Nat.zero_le 1
  · intro hpos
    rw [hsend] at hpos
    cases hpos
  · refine Nat.lt_of_lt_of_le ?_ (Nat.le_add_left _ _)
    exact List.countP_pos_iff.mpr ⟨.top,List.mem_cons_self ..,rfl⟩

/-- As long as no batch removes the node itself and no two calls of Stop are under way at once,
whoever waits on doneChan can still be heard. -/
theorem run_not_stuck (app : App) (calls : List Bool) (happ : app.halted=none)
    (hcalm : (started app calls).Along Calm cs) (h : (started app calls).run cs=some s) :
    ¬s.Stuck :=
  (run_induct (fun _ _ _ hs hc ht => hs.take hc ht) (started_inv app calls happ) hcalm h).not_stuck

end

section

variable [Raftpb] [Gob] {s s' : Processes} {c : Choice} {cs : List Choice}

/-- A process that never comes back to raftloop and starts no new one. -/
def Dead : Proc → Prop
  | .returned | .stop .send _ | .stop .stopNode .outside | .stop .clear .outside => True
  | _ => False

/-- When only such processes are left, those that wait wait forever. -/
theorem take_dead (h : ∀ p∈s.procs, Dead p) (ht : s.take c=some s') :
    (∀ p∈s'.procs, Dead p) ∧ ∀ i, s.SendsAt i → s'.SendsAt i := by
  have hset (i : Nat) (p p' : Proc) (hp : s.procs[i]?=some p) (hns : p.sending=false)
      (hp' : Dead p') : (∀ q∈s.procs.set i p', Dead q) ∧
      ∀ j, s.SendsAt j → ∃ caller, (s.procs.set i p')[j]?=some (.stop .send caller) := by
    refine ⟨fun q hq => ?_,?_⟩
    · rcases List.mem_or_eq_of_mem_set hq with hq | rfl
      · exact h q hq
      · exact hp'
    · rintro j ⟨caller,hj⟩
      refine ⟨caller,?_⟩
      rw [List.getElem?_set_ne,hj]
      rintro rfl
      rw [hp] at hj
      cases hj
      cases hns
  cases c with
  | node rn =>
    cases ht
    exact ⟨h,fun _ hi => hi⟩
  | run i =>
    obtain ⟨p,hp,ht⟩ := Option.bind_eq_some_iff.mp ht
    have hdead := h p (List.mem_of_getElem? hp)
    cases p with
    | stop pc caller =>
      cases pc with
      | check => exact hdead.elim
      | send => cases ht
      | stopNode =>
        cases caller with
        | outside =>
          cases ht
          exact hset i _ _ hp rfl trivial
        | applyEntries | restart => exact hdead.elim
      | clear =>
        cases caller with
        | outside =>
          cases ht
          exact hset i _ _ hp rfl trivial
        | applyEntries | restart => exact hdead.elim
    | returned => cases ht
    | top | select | apply | advance | idle | reset | startCheck | startNode | startRunning
    | startLoop => exact hdead.elim
  | tick i | ready i ents | resetFails i | startNode i rn =>
    dsimp only [Processes.take] at ht
    split_ifs at ht with hp
    exact False.elim (h _ (List.mem_of_getElem? hp))
  | handOver i j =>
    dsimp only [Processes.take] at ht
    split at ht
    · rename_i hi hj
      exact False.elim (h _ (List.mem_of_getElem? hj))
    · cases ht

theorem stuck_of_dead {i : Nat} (h : ∀ p∈s.procs, Dead p) (hi : s.SendsAt i) : s.Stuck := by
  refine ⟨i,hi,fun cs => ?_⟩
  induction cs generalizing s with
  | nil =>
    intro s' hs'
    cases hs'
    exact ⟨hi,fun hsel => h _ hsel⟩
  | cons c cs ih =>
    intro s' hs'
    obtain ⟨s1,h1,hs'⟩ := Option.bind_eq_some_iff.mp hs'
    obtain ⟨hdead,hsends⟩ := take_dead h h1
    exact ih hdead (hsends i hi) s' hs'

end

section

local instance processWire : Raftpb := Wire.small

/-- A store whose proposals are all undecodable. -/
local instance processGob : Gob := ⟨fun _ => none⟩

/-- Node 1 of two, which has been started and has applied nothing yet. -/
def member : Except Panic App :=
  App.start Wire.marshalConfChange [⟨1,[]⟩,⟨2,[]⟩] 1 []

def confEntry (index : Nat) (cc : ConfChange) : Entry := { (default : Entry) with
  type := .entryConfChange
  index := index
  data := Wire.marshalConfChange cc }

/-- The two nodes join, then node 1 is removed. -/
def removal : List Entry :=
  [confEntry 1 { type := .addNode, nodeID := 1 },confEntry 2 { type := .addNode, nodeID := 2 },
  confEntry 3 { type := .removeNode, nodeID := 1 }]

/-- The batch is applied, and raftloop calls Stop. -/
def selfStop : List Choice := [.run 0,.ready 0 removal,.run 0,.run 0]

/-- Two calls of Stop both see a running node before one of them is received. -/
def twoStops : List Choice := [.run 0,.run 1,.run 1,.run 2,.run 2,.handOver 1 0]

/-- A node that applies its own removal waits for itself; of two calls of Stop at once one is
never received. -/
theorem stuck_selfStop_twoStops : ∃ app, member=.ok app ∧ app.halted=none ∧
    (∃ s, (started app []).run selfStop=some s ∧ s.procs=[.stop .send .applyEntries] ∧ s.Stuck) ∧
    ∃ s, (started app [false,false]).run twoStops=some s ∧
      s.procs=[.returned,.stop .stopNode .outside,.stop .send .outside] ∧ s.Stuck := by
  obtain ⟨app,s,s',happ,hhalted,hs,hprocs,hs',hprocs'⟩ : ∃ app s s', member=.ok app ∧
      app.halted=none ∧ (started app []).run selfStop=some s ∧
      s.procs=[.stop .send .applyEntries] ∧ (started app [false,false]).run twoStops=some s' ∧
      s'.procs=[.returned,.stop .stopNode .outside,.stop .send .outside] :=
    ⟨_,_,_,rfl,rfl,rfl,rfl,rfl,rfl⟩
  refine ⟨app,happ,hhalted,⟨s,hs,hprocs,?_⟩,s',hs',hprocs',?_⟩
  · apply stuck_of_dead (i := 0)
    · rw [hprocs]
      simp [Dead]
    · exact ⟨.applyEntries,by rw [hprocs]; rfl⟩
  · apply stuck_of_dead (i := 2)
    · rw [hprocs']
      simp [Dead]
    · exact ⟨.outside,by rw [hprocs']; rfl⟩

/-- The two nodes join, and a single call of Stop waits while the batch is applied. -/
def oneStop : List Choice :=
  [.run 0,.ready 0 (removal.take 2),.run 1,.run 1,.run 0]

theorem run_not_stuck_oneStop : ∃ app s, member=.ok app ∧
    (started app [false]).run oneStop=some s ∧ s.procs=[.advance,.stop .send .outside] ∧
    ¬s.Stuck := by
  obtain ⟨app,s,happ,hhalted,hcalm,hs,hprocs⟩ : ∃ app s, member=.ok app ∧ app.halted=none ∧
      (started app [false]).Along Calm oneStop ∧ (started app [false]).run oneStop=some s ∧
      s.procs=[.advance,.stop .send .outside] :=
    ⟨_,_,rfl,rfl,by decide +kernel,rfl,rfl⟩
  exact ⟨app,s,happ,hs,hprocs,run_not_stuck app [false] hhalted hcalm hs⟩

end

end Processes

end RaftTesting
