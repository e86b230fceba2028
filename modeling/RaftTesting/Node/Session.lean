import RaftTesting.Transition.Log

namespace RaftTesting

/-- The Ready that the application works on, with the raft that produced it. -/
structure Work where
  ready : Ready
  origin : Raft
  deriving DecidableEq

def Work.handout (w : Work) : Handout where
  entries := w.ready.entries
  snapshot := w.ready.snapshot
  cursor := w.ready.appliedCursor
  offset := w.origin.raftLog.unstable.offset
  committed := w.origin.raftLog.committed

/-- The application writes a hard state only if the Ready has one. -/
def MemoryStorage.saveHardState (ms : MemoryStorage) (st : HardState) : MemoryStorage :=
  if st={} then ms else ms.setHardState st

/-- A RawNode with the application around it: the Ready it works on and how far it is with
it, the configuration entries of that Ready still to be applied, and all Readys so far. -/
structure Session where
  rn : RawNode
  work : Option Work := none
  stage : Stage := .handed
  due : List Entry := []
  handed : List Work := []
  deriving DecidableEq

/-- What happens at a node. Proposals and the other calls are steps with their message. -/
inductive Act where
  | step (m : Message)
  | tick
  | applyConfChange (cc : ConfChangeV2)
  | ready
  | save
  | append
  | compact (i : Nat)
  | advance
  deriving DecidableEq

namespace Session

def raftLog (x : Session) : RaftLog := x.rn.raft.raftLog

/-- The application writes to the storage that the raft reads from. -/
def write (x : Session) (ms : MemoryStorage) (stage : Stage) : Session :=
  { x with
    rn := { x.rn with raft := x.rn.raft.setLog { x.raftLog with storage := ms } }
    stage := stage }

section

variable [Raftpb]

/-- The application saves the hard state and the snapshot of a Ready, then its entries, and
advances. An act of the application whose turn it is not leaves the session as it is. -/
def act (x : Session) : Act → Except Panic Session
  | .step m => do
    let (rn,_) ← x.rn.stepRaft m
    .ok { x with rn := rn }
  | .tick => do
    let rn ← x.rn.tick
    .ok { x with rn := rn }
  | .applyConfChange cc => do
    let (rn,_) ← x.rn.applyConfChange cc
    .ok { x with rn := rn, due := x.due.tail }
  | .ready =>
    match x.work with
    | some _ => .ok x
    | none => do
      let (rn,rd) ← x.rn.ready
      let w : Work := ⟨rd,x.rn.raft⟩
      .ok {
        rn := rn
        work := some w
        due := rd.committedEntries.filter Entry.isConf
        handed := x.handed++[w] }
  | .save =>
    match x.work,x.stage with
    | some w,.handed =>
      .ok (x.write ((x.raftLog.storage.saveHardState w.ready.hardState).install w.ready.snapshot)
        .installed)
    | _,_ => .ok x
  | .append =>
    match x.work,x.stage with
    | some w,.installed => do
      let ms ← x.raftLog.storage.append w.ready.entries
      .ok (x.write ms .stored)
    | _,_ => .ok x
  | .compact i => do
    match ← x.raftLog.storage.compact i with
    | .ok ms => .ok (x.write ms x.stage)
    | .error _ => .ok x
  | .advance =>
    match x.work,x.stage with
    | some w,.stored => do
      let rn ← x.rn.advance w.ready
      .ok { rn := rn, handed := x.handed }
    | _,_ => .ok x

def run (x : Session) (acts : List Act) : Except Panic Session := acts.foldlM act x

end

/-- The raft has moved on. -/
def setRaft (x : Session) (r : Raft) : Session := { x with rn := { x.rn with raft := r } }

/-- What an act does when it succeeds. -/
inductive Does [Raftpb] (x : Session) : Act → Session → Prop
  | stay {a : Act} : Does x a x
  | step {m : Message} {r : Raft} {err : Option StepErr} (h : x.rn.raft.step m=.ok (r,err)) :
      Does x (.step m) (x.setRaft r)
  | tick {r : Raft} (h : x.rn.raft.tick=.ok r) : Does x .tick (x.setRaft r)
  | applyConfChange {cc : ConfChangeV2} {r : Raft} {cs : ConfState}
      (h : x.rn.raft.applyConfChange cc=.ok (r,cs)) :
      Does x (.applyConfChange cc) { x.setRaft r with due := x.due.tail }
  | ready {rd : Ready} (hw : x.work=none) (h : x.rn.readyWithoutAccept=.ok rd) : Does x .ready {
      rn := x.rn.acceptReady rd
      work := some ⟨rd,x.rn.raft⟩
      due := rd.committedEntries.filter Entry.isConf
      handed := x.handed++[⟨rd,x.rn.raft⟩] }
  | save {w : Work} (hw : x.work=some w) (hst : x.stage=.handed) : Does x .save (x.write
      ((x.raftLog.storage.saveHardState w.ready.hardState).install w.ready.snapshot) .installed)
  | append {w : Work} {ms : MemoryStorage} (hw : x.work=some w) (hst : x.stage=.installed)
      (h : x.raftLog.storage.append w.ready.entries=.ok ms) : Does x .append (x.write ms .stored)
  | compact {i : Nat} {ms : MemoryStorage} (h : x.raftLog.storage.compact i=.ok (.ok ms)) :
      Does x (.compact i) (x.write ms x.stage)
  | advance {w : Work} {rn : RawNode} (hw : x.work=some w) (hst : x.stage=.stored)
      (h : x.rn.advance w.ready=.ok rn) : Does x .advance { rn := rn, handed := x.handed }

theorem act_does [Raftpb] {x x' : Session} {a : Act} (h : x.act a=.ok x') : x.Does a x' := by
  cases a with
  | step m =>
    obtain ⟨⟨rn,err⟩,h1,h⟩ := bind_eq_ok.mp h
    cases h
    obtain ⟨⟨r,err'⟩,h2,h1⟩ := bind_eq_ok.mp h1
    cases h1
    exact .step h2
  | tick =>
    obtain ⟨rn,h1,h⟩ := bind_eq_ok.mp h
    cases h
    obtain ⟨r,h2,h1⟩ := bind_eq_ok.mp h1
    cases h1
    exact .tick h2
  | applyConfChange cc =>
    obtain ⟨⟨rn,cs⟩,h1,h⟩ := bind_eq_ok.mp h
    cases h
    obtain ⟨⟨r,cs'⟩,h2,h1⟩ := bind_eq_ok.mp h1
    cases h1
    exact .applyConfChange h2
  | ready =>
    dsimp only [act] at h
    split at h
    · cases h
      exact .stay
    · rename_i hw
      obtain ⟨⟨rn,rd⟩,h1,h⟩ := bind_eq_ok.mp h
      cases h
      obtain ⟨rd',h2,h1⟩ := bind_eq_ok.mp h1
      cases h1
      exact .ready hw h2
  | save =>
    dsimp only [act] at h
    split at h
    · rename_i w hst hw
      cases h
      exact .save hst hw
    · cases h
      exact .stay
  | append =>
    dsimp only [act] at h
    split at h
    · rename_i w hw hst
      obtain ⟨ms,hms,h⟩ := bind_eq_ok.mp h
      cases h
      exact .append hw hst hms
    · cases h
      exact .stay
  | compact i =>
    obtain ⟨res,hres,h⟩ := bind_eq_ok.mp h
    cases res with
    | error e =>
      cases h
      exact .stay
    | ok ms =>
      cases h
      exact .compact hres
  | advance =>
    dsimp only [act] at h
    split at h
    · rename_i w hw hst
      obtain ⟨rn,h1,h⟩ := bind_eq_ok.mp h
      cases h
      exact .advance hw hst h1
    · cases h
      exact .stay

/-- Messages are as the nodes send them, and storage is compacted up to the applied index,
not between producing and saving a Ready. -/
def Fits (x : Session) : Act → Prop
  | .step m => m.Fine
  | .compact i => i≤x.raftLog.applied ∧ (x.work≠none → x.stage=.stored)
  | _ => True

instance decidableFine (m : Message) : Decidable m.Fine :=
  decidable_of_iff ((m.type.needsTerm=true → m.term≠0) ∧
      (m.type=.msgApp → Numbered m.index m.entries))
    ⟨fun h => ⟨h.1,h.2⟩,fun h => ⟨h.1,h.2⟩⟩

instance decidableFits (x : Session) : (a : Act) → Decidable (x.Fits a)
  | .step m => inferInstanceAs (Decidable m.Fine)
  | .compact i => inferInstanceAs (Decidable (i≤x.raftLog.applied ∧ (x.work≠none → x.stage=.stored)))
  | .tick | .applyConfChange _ | .ready | .save | .append | .advance => .isTrue trivial

/-- Every act of a run meets a condition in the state it is made in. -/
def Along [Raftpb] (P : Session → Act → Prop) : Session → List Act → Prop
  | _,[] => True
  | x,a::acts => P x a ∧
      match x.act a with
      | .ok x' => Along P x' acts
      | .error _ => True

instance decidableAlong [Raftpb] (P : Session → Act → Prop) [∀ x a, Decidable (P x a)]
    (x : Session) : (acts : List Act) → Decidable (x.Along P acts)
  | [] => .isTrue trivial
  | a::acts =>
    have : Decidable (match x.act a with
        | .ok x' => Along P x' acts
        | .error _ => True) :=
      match x.act a with
      | .ok x' => decidableAlong P x' acts
      | .error _ => .isTrue trivial
    inferInstanceAs (Decidable (P x a ∧ _))

theorem Along.and [Raftpb] {P Q : Session → Act → Prop} {acts : List Act} {x : Session}
    (hP : x.Along P acts) (hQ : x.Along Q acts) : x.Along (fun x a => P x a ∧ Q x a) acts := by
  induction acts generalizing x with
  | nil => trivial
  | cons a acts ih =>
    obtain ⟨hP,hrestP⟩ := hP
    obtain ⟨hQ,hrestQ⟩ := hQ
    refine ⟨⟨hP,hQ⟩,?_⟩
    cases hact : x.act a with
    | error e => trivial
    | ok x' =>
      rw [hact] at hrestP hrestQ
      exact ih hrestP hrestQ

/-- What every act keeps is kept by a run. -/
theorem run_induct [Raftpb] {P : Session → Act → Prop} {I : Session → Prop}
    (hstep : ∀ x a x', I x → P x a → x.act a=.ok x' → I x') {acts : List Act} {x y : Session}
    (hx : I x) (hacts : x.Along P acts) (h : x.run acts=.ok y) : I y := by
  induction acts generalizing x with
  | nil =>
    cases h
    exact hx
  | cons a acts ih =>
    obtain ⟨x1,h1,h⟩ := bind_eq_ok.mp h
    obtain ⟨hP,hrest⟩ := hacts
    rw [h1] at hrest
    exact ih (hstep x a x1 hx hP h1) hrest h

/-- The log with the application that keeps its storage. -/
def log (x : Session) : LogSession where
  log := x.raftLog
  pending := x.work.map Work.handout
  stage := x.stage
  settled := x.raftLog.applied

/-- What holds in every run, whatever messages the node receives and however late the
application is. -/
structure Sane (x : Session) : Prop where
  base : x.log.Base
  old : x.raftLog.storage.snapshot.index≤x.raftLog.committed
  calm : x.rn.raft.core.Calm

open LogSession RaftTesting.Core

theorem install_snapshot (ms : MemoryStorage) (sn : Snapshot) :
    (ms.install sn).snapshot=ms.snapshot ∨
      isEmptySnap sn=false ∧ (ms.install sn).snapshot=sn := by
  unfold MemoryStorage.install MemoryStorage.applySnapshot
  split
  · exact .inl rfl
  · rename_i hne
    split
    · rename_i h
      split at h <;> cases h
      exact .inr ⟨Bool.eq_false_iff.mpr hne,rfl⟩
    · exact .inl rfl

theorem saveHardState_snapshot (ms : MemoryStorage) (st : HardState) :
    (ms.saveHardState st).snapshot=ms.snapshot := by
  unfold MemoryStorage.saveHardState
  split <;> rfl

theorem stabilize_snapshot (l : RaftLog) (entries : List Entry) (sn : Snapshot) :
    (l.stabilize entries sn).unstable.snapshot=none ∨
      (l.stabilize entries sn).unstable.snapshot=l.unstable.snapshot := by
  have hto : ∀ i t, (l.stableTo i t).unstable.snapshot=l.unstable.snapshot := by
    intro i t
    unfold RaftLog.stableTo Unstable.stableTo
    dsimp only
    split
    · rfl
    · split <;> rfl
  have hsnap : ∀ l' : RaftLog, l'.unstable.snapshot=l.unstable.snapshot →
      (l'.stableSnapTo sn.index).unstable.snapshot=none ∨
        (l'.stableSnapTo sn.index).unstable.snapshot=l.unstable.snapshot := by
    intro l' hl'
    have hspec := (stableSnapTo_spec l'.unstable sn.index).1
    change (l'.unstable.stableSnapTo sn.index).snapshot=none ∨
      (l'.unstable.stableSnapTo sn.index).snapshot=_
    rw [hspec,← hl']
    split <;> simp
  unfold RaftLog.stabilize
  dsimp only
  split
  · split
    · exact .inr (hto _ _)
    · exact .inr rfl
  · split
    · exact hsnap _ (hto _ _)
    · exact hsnap _ rfl

section

variable [Raftpb] {P : LogSession → Handout → Prop} {x x' : Session}

/-- A Ready hands out what the log has for the application. -/
theorem ready_handout {rn : RawNode} {rd : Ready} (h : rn.readyWithoutAccept=.ok rd) :
    rn.raft.raftLog.handout=.ok (Work.handout ⟨rd,rn.raft⟩) := by
  obtain ⟨ents,hn,h⟩ := bind_eq_ok.mp h
  cases h
  unfold RaftLog.handout
  rw [hn]
  rfl

/-- The commit index is inside of the log when a Ready can be produced. -/
theorem Sane.committed_le (hx : x.Sane) (hw : x.work=none) {h : Handout}
    (hh : x.raftLog.handout=.ok h) : x.raftLog.committed≤x.raftLog.lastIndex := by
  obtain ⟨ents,hn,-⟩ := bind_eq_ok.mp hh
  obtain ⟨-,-,hle⟩ := RaftLog.nextEnts_reads hn
  rcases hle with hle | hle
  · have hreach : x.log.reach=x.raftLog.applied :=
      reach_of_handed (hx.base.idle (Option.map_eq_none_iff.mpr hw))
    have hstock := hx.base.stocked
    have hdummy := hx.base.base
    rw [hreach] at hstock hdummy
    change _≤x.raftLog.storage.lastIndex at hstock
    change x.raftLog.storage.dummy.index≤_ at hdummy
    by_cases hnil : x.raftLog.unstable.entries=[]
    · cases hs : x.raftLog.unstable.snapshot with
      | some s =>
        rw [RaftLog.firstIndex_of_snapshot hs] at hle
        rw [RaftLog.lastIndex_of_snapshot hnil hs]
        obtain ⟨-,-,-,hlt⟩ := hx.base.snap s hs
        change x.raftLog.applied<_ at hlt
        omega
      | none =>
        rw [RaftLog.firstIndex_of_stable hs] at hle
        rw [RaftLog.lastIndex_of_stable hnil hs]
        omega
    · have hahead := hx.base.ahead hnil
      change x.raftLog.applied+1<x.raftLog.unstable.offset+x.raftLog.unstable.entries.length
        at hahead
      rw [RaftLog.lastIndex_of_entries hnil]
      cases hs : x.raftLog.unstable.snapshot with
      | some s =>
        rw [RaftLog.firstIndex_of_snapshot hs] at hle
        obtain ⟨-,hlt,-,-⟩ := hx.base.snap s hs
        change _<x.raftLog.unstable.offset at hlt
        omega
      | none =>
        rw [RaftLog.firstIndex_of_stable hs] at hle
        omega
  · exact hle

omit [Raftpb] in
theorem log_pending {w : Work} (hw : x.work=some w) : x.log.pending=some w.handout := by
  change x.work.map Work.handout=_
  rw [hw]
  rfl

omit [Raftpb] in
theorem log_idle : x.log.pending=none ↔ x.work=none := Option.map_eq_none_iff

/-- The raft makes moves, in a configuration that may have just been installed. -/
theorem Sane.moves {c : Core} {r : Raft} (hx : x.Sane) (hlog : c.raftLog=x.raftLog)
    (hcalm : c.Calm) (h : Moves Message.Fine c r.core) :
    (x.setRaft r).Sane ∧ Changes P x.log (x.setRaft r).log := by
  have hl : ∀ {Q : LogSession → Handout → Prop}, Logs Q x.log r.core :=
    h.logs (fun _ hm => hm) hx.base hx.old hlog
  have happlied : r.raftLog.applied=x.raftLog.applied := by
    rw [← hlog]
    exact h.fixed.2
  have heq : (x.setRaft r).log=x.log.setLog r.raftLog := by
    unfold log LogSession.setLog raftLog setRaft
    dsimp only
    rw [happlied]
    rfl
  have hchange : ∀ {Q : LogSession → Handout → Prop}, Changes Q x.log (x.setRaft r).log := by
    intro Q
    rw [heq]
    exact hl.changes
  refine ⟨⟨hx.base.changes (P := P) hchange,?_,h.calm hcalm⟩,hchange⟩
  have hstorage : r.raftLog.storage=x.raftLog.storage := (hl (Q := P)).storage
  have hcommitted : x.raftLog.committed≤r.raftLog.committed := (hl (Q := P)).committed
  change r.raftLog.storage.snapshot.index≤r.raftLog.committed
  rw [hstorage]
  exact hx.old.trans hcommitted

/-- The application writes to storage. -/
theorem Sane.write {ms : MemoryStorage} {stage : Stage} (hx : x.Sane)
    (hchange : ∀ {Q : LogSession → Handout → Prop}, Changes Q x.log (x.log.write ms stage))
    (hold : ms.snapshot.index≤x.raftLog.committed) : (x.write ms stage).Sane :=
  ⟨hx.base.changes (P := fun _ _ => True) hchange,hold,hx.calm.of_same rfl rfl⟩

theorem Sane.ready {rd : Ready} (hx : x.Sane) (hw : x.work=none)
    (h : x.rn.readyWithoutAccept=.ok rd) : Change P x.log (fun _ => False)
      ({ x.log with pending := some (Work.handout ⟨rd,x.rn.raft⟩), stage := .handed }) := by
  have hh := ready_handout h
  exact .ready (log_idle.mpr hw) (hx.committed_le hw hh) hh

theorem Sane.save {w : Work} (hw : x.work=some w) (hst : x.stage=.handed) :
    Changes P x.log (x.log.write
      ((x.raftLog.storage.saveHardState w.ready.hardState).install w.ready.snapshot)
      .installed) := by
  have hp := log_pending hw
  unfold MemoryStorage.saveHardState
  split
  · exact .single ⟨_,.install hp hst⟩
  · have hinstall : Change P (x.log.write (x.raftLog.storage.setHardState w.ready.hardState) x.stage)
        (fun _ => False) _ := .install hp hst
    exact .head ⟨_,.hardState w.ready.hardState⟩ (.single ⟨_,hinstall⟩)

/-- Advance moves the applied index first, then the stable cursors. -/
theorem Sane.advance {w : Work} {rn : RawNode} (hx : x.Sane) (hw : x.work=some w)
    (hst : x.stage=.stored) (hP : ∀ l : RaftLog, (l.unstable=x.raftLog.unstable ∨
      x.raftLog.unstable.snapshot=none ∧ l.unstable.snapshot=none) →
      P (x.log.setLog l) w.handout)
    (h : x.rn.advance w.ready=.ok rn) :
    rn.raft.core.Calm ∧ rn.raft.raftLog.storage=x.raftLog.storage ∧
      x.raftLog.committed≤rn.raft.raftLog.committed ∧
      rn.raft.raftLog.applied=max x.raftLog.applied w.ready.appliedCursor ∧
      Changes P x.log ⟨rn.raft.raftLog,none,.handed,rn.raft.raftLog.applied⟩ := by
  obtain ⟨r',hr',h⟩ := bind_eq_ok.mp h
  cases h
  obtain ⟨r1,h1,hr'⟩ := bind_eq_ok.mp hr'
  cases hr'
  have hm : HostMoves Message.Fine x.rn.raft.core r1.core :=
    Raft.advanceApplied_moves (r := x.rn.raft.reduceUncommittedSize _) h1
  have hl : Logs P x.log r1.core := hm.logs (fun _ hm => hm) hx.base hx.old rfl
  have hcalm := hm.calm hx.calm
  obtain ⟨happlied,hsnap,hunst⟩ := Raft.advanceApplied_log h1
  have hown : P (x.log.setLog r1.raftLog) w.handout := by
    refine hP _ ?_
    rcases hunst with hunst | hlead
    · exact .inl hunst
    · -- a leader has no pending snapshot
      have hlead : x.rn.raft.state=.stateLeader := hlead
      have hnone : x.raftLog.unstable.snapshot=none := hx.calm.vacant (by
        change x.rn.raft.state≠_
        rw [hlead]
        nofun)
      exact .inr ⟨hnone,hsnap.trans hnone⟩
  have hp : (x.log.setLog r1.raftLog).pending=some w.handout := log_pending hw
  have hadv : Change P (x.log.setLog r1.raftLog) (fun _ => False) _ := .advance hp hst hown
  have hsame := w.ready.stabilize_eq r1.raftLog
  have hstable : (w.ready.stabilize r1.raftLog).applied=
      max x.raftLog.applied w.ready.appliedCursor := by
    rw [hsame]
    exact happlied
  refine ⟨?_,?_,?_,hstable,?_⟩
  · intro s hs
    rcases stabilize_snapshot r1.raftLog w.ready.entries w.ready.snapshot with hnone | hkeep
    · exact absurd (hs.symm.trans hnone) (Option.some_ne_none s)
    · exact hcalm s (hkeep.symm.trans hs)
  · change (w.ready.stabilize r1.raftLog).storage=_
    rw [hsame]
    exact hl.storage
  · change _≤(w.ready.stabilize r1.raftLog).committed
    rw [hsame]
    exact hl.committed
  · refine hl.changes.trans ?_
    change Changes P _ ⟨w.ready.stabilize r1.raftLog,none,.handed,
      (w.ready.stabilize r1.raftLog).applied⟩
    rw [hstable]
    exact .single ⟨_,hadv⟩

/-- Every act is a chain of changes of the log and the storage under it. -/
theorem Sane.does {a : Act} (hx : x.Sane) (hf : x.Fits a)
    (hP : ∀ w, a=.advance → x.work=some w → x.stage=.stored → ∀ l : RaftLog,
      (l.unstable=x.raftLog.unstable ∨
        x.raftLog.unstable.snapshot=none ∧ l.unstable.snapshot=none) →
      P (x.log.setLog l) w.handout)
    (h : x.Does a x') : x'.Sane ∧ Changes P x.log x'.log := by
  cases h with
  | stay => exact ⟨hx,.refl⟩
  | step h => exact hx.moves rfl hx.calm (Raft.step_moves (fun _ => hf) hf.stamped h)
  | tick h => exact hx.moves rfl hx.calm (Raft.tick_moves h)
  | @applyConfChange cc r cs h =>
    obtain ⟨t,-,hm⟩ := Raft.applyConfChange_moves (S := Message.Fine) h
    obtain ⟨hs,hc⟩ := hx.moves (c := x.rn.raft.core.install t) (P := P) rfl
      (hx.calm.of_same rfl rfl) hm
    exact ⟨⟨hs.base,hs.old,hs.calm⟩,hc⟩
  | @ready rd hw h =>
    have hc : ∀ {Q : LogSession → Handout → Prop}, Changes Q x.log
        ({ x.log with pending := some (Work.handout ⟨rd,x.rn.raft⟩), stage := .handed }) :=
      .single ⟨_,hx.ready hw h⟩
    exact ⟨⟨hx.base.changes (hc (Q := P)),hx.old,hx.calm.of_same rfl rfl⟩,hc⟩
  | @save w hw hst =>
    have hh := hx.base.hand w.handout (log_pending hw)
    have hle : w.ready.snapshot.index≤x.raftLog.committed := by
      have h1 := hh.cursor
      have h2 : w.handout.committed≤x.raftLog.committed := hh.committed
      cases he : isEmptySnap w.ready.snapshot with
      | true =>
        have hzero : w.ready.snapshot.index=0 := of_decide_eq_true he
        omega
      | false =>
        have h3 : w.ready.snapshot.index≤w.handout.cursor := (hh.snapshot he).1
        omega
    refine ⟨hx.write (Sane.save hw hst) ?_,Sane.save hw hst⟩
    rcases install_snapshot (x.raftLog.storage.saveHardState w.ready.hardState) w.ready.snapshot
      with hkeep | ⟨-,hnew⟩
    · rw [hkeep,saveHardState_snapshot]
      exact hx.old
    · rw [hnew]
      exact hle
  | @append w ms hw hst hms =>
    have hp := log_pending hw
    have hc : ∀ {Q : LogSession → Handout → Prop}, Changes Q x.log (x.log.write ms .stored) :=
      .single ⟨_,.store hp hst hms⟩
    refine ⟨hx.write hc ?_,hc⟩
    rw [(hx.base.written hp hst hms).snapshot]
    exact hx.old
  | @compact i ms hms =>
    have hc : ∀ {Q : LogSession → Handout → Prop}, Changes Q x.log (x.log.write ms x.stage) :=
      .single ⟨_,.compact hf.1 (fun hp => hf.2 (fun hw => hp (log_idle.mpr hw))) hms⟩
    obtain ⟨-,-,-,-,-,hsnap,-⟩ := MemoryStorage.compact_spec hx.base.stored hms
    refine ⟨hx.write hc ?_,hc⟩
    rw [hsnap]
    exact hx.old
  | @advance w rn hw hst h =>
    obtain ⟨hcalm,hs,hc,-,hch⟩ := hx.advance hw hst (hP w rfl hw hst) h
    refine ⟨⟨hx.base.changes hch,?_,hcalm⟩,hch⟩
    change rn.raft.raftLog.storage.snapshot.index≤_
    rw [hs]
    exact hx.old.trans hc

end

end Session

end RaftTesting
