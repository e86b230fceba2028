import RaftTesting.Log.Pieces

namespace RaftTesting

/-- What a Ready hands to the application for its storage, with the index that Advance
confirms as applied, and where the log stood when it was handed out. -/
structure Handout where
  entries : List Entry
  snapshot : Snapshot
  cursor : Nat
  offset : Nat
  committed : Nat

/-- The snapshot as the unstable log held it. -/
def Handout.source (h : Handout) : Option Snapshot :=
  if isEmptySnap h.snapshot then none else some h.snapshot

/-- The error of ApplySnapshot is ignored. -/
def MemoryStorage.install (ms : MemoryStorage) (snapshot : Snapshot) : MemoryStorage :=
  if isEmptySnap snapshot then ms else
    match ms.applySnapshot snapshot with
    | .ok ms => ms
    | .error _ => ms

/-- What the next Ready hands out. -/
def RaftLog.handout [Raftpb] (l : RaftLog) : Except Panic Handout := do
  let committedEntries ← l.nextEnts
  let snapshot := l.unstable.snapshot.getD {}
  .ok {
    entries := l.unstableEntries
    snapshot := snapshot
    cursor := match committedEntries.getLast? with
      | some e => e.index
      | none => snapshot.index
    offset := l.unstable.offset
    committed := l.committed }

/-- stableTo for the last entry and stableSnapTo, as Advance makes the two calls. -/
def RaftLog.stabilize (l : RaftLog) (entries : List Entry) (snapshot : Snapshot) : RaftLog :=
  let l := match entries.getLast? with
    | some e => l.stableTo e.index e.term
    | none => l
  if isEmptySnap snapshot then l else l.stableSnapTo snapshot.index

/-- The last of the entries handed out is, by its index and term, still one of the
unstable ones: stableTo takes all up to it for stored. -/
def RaftLog.confirms (l : RaftLog) (entries : List Entry) : Bool :=
  match entries.getLast? with
  | some e => decide (l.unstable.offset≤e.index) &&
      decide ((l.unstable.entryAt e.index).map Entry.term=some e.term)
  | none => false

/-- How far the application is with the handout it works on. -/
inductive Stage where
  | handed
  | installed
  | stored
  deriving DecidableEq,Repr

/-- A log together with the application that keeps its storage. Everything up to the
settled index has been confirmed as applied by Advance. -/
structure LogSession where
  log : RaftLog
  pending : Option Handout := none
  stage : Stage := .handed
  settled : Nat

namespace LogSession

def setLog (x : LogSession) (l : RaftLog) : LogSession := { x with log := l }

/-- The application writes to storage, and is that far with its handout. -/
def write (x : LogSession) (ms : MemoryStorage) (stage : Stage) : LogSession :=
  { x with log := { x.log with storage := ms }, stage := stage }

/-- How far storage holds what has been handed out for applying. -/
def reach (x : LogSession) : Nat :=
  match x.pending,x.stage with
  | some h,.installed => max x.settled h.snapshot.index
  | some h,.stored => max x.settled h.cursor
  | _,_ => x.settled

/-- What holds of a handout while the raft goes on: nothing at or below the commit index
of its time has been changed since, unless a newer snapshot has replaced the log. -/
structure Hand (x : LogSession) (h : Handout) : Prop where
  pos : 1≤h.offset
  numbered : Numbered (h.offset-1) h.entries
  cursor : h.cursor≤h.committed
  committed : h.committed≤x.log.committed
  settled : x.settled≤h.committed
  kept : ∀ i, x.log.unstable.offset ≤ i → i≤h.committed →
    h.offset ≤ i ∧ i<h.offset+h.entries.length ∧ x.log.unstable.entryAt i=h.entries[i-h.offset]?
  tail : x.log.unstable.entries≠[] →
    x.log.unstable.entries=h.entries ∧ x.log.unstable.offset=h.offset ∨
      h.committed+1<x.log.unstable.offset+x.log.unstable.entries.length
  alive : h.entries≠[] → x.log.unstable.entries=[] →
    ∃ s, x.log.unstable.snapshot=some s ∧ h.committed<s.index
  source : (∃ s, x.log.unstable.snapshot=some s ∧ h.committed<s.index) ∨
    x.log.unstable.snapshot=h.source
  snapshot : isEmptySnap h.snapshot=false →
    h.snapshot.index≤h.cursor ∧ h.snapshot.index<h.offset
  cover : h.entries≠[] → h.cursor<h.offset+h.entries.length
  coverSnap : h.entries=[] → isEmptySnap h.snapshot=false → h.cursor=h.snapshot.index
  behind : isEmptySnap h.snapshot=false → x.settled<h.snapshot.index
  ahead : h.entries≠[] → x.settled+1<h.offset+h.entries.length
  fresh : x.stage=.handed → isEmptySnap h.snapshot=false →
    x.log.storage.snapshot.index<h.snapshot.index
  bare : x.stage≠.stored → h.entries=[] → isEmptySnap h.snapshot=true →
    h.cursor≤x.log.storage.lastIndex
  dummy : x.stage≠.handed → isEmptySnap h.snapshot=false →
    x.log.storage.dummy.index=h.snapshot.index ∧ x.log.storage.dummy.term=h.snapshot.term
  installed : x.stage=.installed → isEmptySnap h.snapshot=false →
    x.log.storage.lastIndex=h.snapshot.index
  storedEnts : x.stage=.stored → h.entries≠[] →
    x.log.storage.lastIndex+1=h.offset+h.entries.length
  content : x.stage=.stored → h.entries≠[] → ∀ i, h.offset ≤ i → x.log.storage.dummy.index < i →
    x.log.storage.entryAt i=h.entries[i-h.offset]?
  storedSnap : x.stage=.stored → h.entries=[] → isEmptySnap h.snapshot=false →
    x.log.storage.lastIndex=h.snapshot.index

/-- What holds in every session, whatever the raft appends and however late the
application is. -/
structure Base (x : LogSession) : Prop where
  pos : 1≤x.log.unstable.offset
  unstable : Numbered (x.log.unstable.offset-1) x.log.unstable.entries
  stored : Numbered x.log.storage.dummy.index x.log.storage.stored
  snap : ∀ s, x.log.unstable.snapshot=some s → 0<s.index ∧ s.index<x.log.unstable.offset ∧
    s.index≤x.log.committed ∧ x.settled<s.index
  applied : x.log.applied≤x.log.committed
  beyond : x.log.unstable.entries=[] → x.log.lastIndex<x.log.unstable.offset
  reach : x.reach≤x.log.committed
  stocked : x.reach≤x.log.storage.lastIndex
  base : x.log.storage.dummy.index≤x.reach
  ahead : x.log.unstable.entries≠[] →
    x.settled+1<x.log.unstable.offset+x.log.unstable.entries.length
  agree : ∀ i, x.log.storage.dummy.index < i → i≤x.reach → x.log.unstable.offset ≤ i →
    x.log.storage.entryAt i=x.log.unstable.entryAt i
  agreeDummy : x.log.unstable.offset≤x.log.storage.dummy.index →
    (x.log.unstable.entryAt x.log.storage.dummy.index).map Entry.term=
      some x.log.storage.dummy.term
  newest : ∀ s, x.log.unstable.snapshot=some s → x.log.storage.snapshot.index<s.index ∨
    x.stage≠.handed ∧ ∃ h, x.pending=some h ∧ h.source=some s
  hand : ∀ h, x.pending=some h → x.Hand h
  idle : x.pending=none → x.stage=.handed

theorem settled_le_reach (x : LogSession) : x.settled≤x.reach := by
  unfold reach
  split <;> omega

section

variable {x : LogSession} {h : Handout}

theorem reach_of_handed (hs : x.stage=.handed) : x.reach=x.settled := by
  unfold reach
  rw [hs]
  cases x.pending <;> rfl

theorem reach_of_installed (hp : x.pending=some h) (hs : x.stage=.installed) :
    x.reach=max x.settled h.snapshot.index := by
  unfold reach
  rw [hp,hs]

theorem reach_of_stored (hp : x.pending=some h) (hs : x.stage=.stored) :
    x.reach=max x.settled h.cursor := by
  unfold reach
  rw [hp,hs]

end

variable {x : LogSession}

/-- The raft appends entries behind the commit index. -/
theorem Base.append {q : Nat} {ents : List Entry} {l : RaftLog} (hx : x.Base)
    (hn : Numbered q ents) (h : x.log.append ents=.ok l) :
    ({ x with log := l } : LogSession).Base := by
  by_cases hne : ents=[]
  · subst hne
    cases h
    exact hx
  obtain ⟨u,rfl,hc,-,hsnap,hoff,hnum,hend,hbelow,-⟩ :=
    RaftLog.append_cases hx.unstable hx.pos hn hne h
  have hlen : 0<ents.length := List.length_pos_of_ne_nil hne
  have hue : u.entries≠[] := by
    intro hnil
    rw [hnil,List.length_nil] at hend
    omega
  have hreach : x.reach≤q := hx.reach.trans hc
  -- positions up to the commit index are untouched
  have hold : ∀ i≤q, u.offset ≤ i → x.log.unstable.offset ≤ i := fun i hi hui => by omega
  exact {
    pos := by change 1≤u.offset; rw [hoff]; have := hx.pos; omega
    unstable := hnum
    stored := hx.stored
    snap := by
      intro s hs
      change u.snapshot=some s at hs
      rw [hsnap] at hs
      obtain ⟨h0,h1,h2,h3⟩ := hx.snap s hs
      refine ⟨h0,?_,h2,h3⟩
      change s.index<u.offset
      rw [hoff]
      omega
    applied := hx.applied
    beyond := fun hnil => absurd hnil hue
    reach := hx.reach
    stocked := hx.stocked
    base := hx.base
    ahead := fun _ => by
      change x.settled+1<u.offset+u.entries.length
      have := x.settled_le_reach
      omega
    agree := by
      intro i hd hr hi
      change x.log.storage.entryAt i=u.entryAt i
      have hiq : i≤q := le_trans hr hreach
      rw [hbelow i hiq]
      exact hx.agree i hd hr (hold i hiq hi)
    agreeDummy := by
      intro hd
      have hdq : x.log.storage.dummy.index≤q := hx.base.trans hreach
      change (u.entryAt x.log.storage.dummy.index).map Entry.term=_
      rw [hbelow _ hdq]
      exact hx.agreeDummy (hold _ hdq hd)
    newest := fun s hs => hx.newest s (hsnap ▸ hs)
    hand := by
      intro h hp
      have hh := hx.hand h hp
      exact { hh with
        kept := by
          intro i hi hic
          have hiq : i≤q := hic.trans (hh.committed.trans hc)
          change _ ∧ _ ∧ u.entryAt i=_
          rw [hbelow i hiq]
          exact hh.kept i (hold i hiq hi) hic
        tail := fun _ => .inr (by
          have := hh.committed
          change h.committed+1<u.offset+u.entries.length
          omega)
        alive := fun _ hnil => absurd hnil hue
        source := by
          change (∃ s, u.snapshot=some s ∧ _) ∨ u.snapshot=_
          rw [hsnap]
          exact hh.source }
    idle := hx.idle }

/-- Only the cursors move. -/
theorem Base.cursors {l : RaftLog} (hx : x.Base) (hu : l.unstable=x.log.unstable)
    (hs : l.storage=x.log.storage) (hc : x.log.committed≤l.committed) (ha : l.applied≤l.committed) :
    ({ x with log := l } : LogSession).Base := by
  obtain ⟨storage,unstable,committed,applied,size⟩ := l
  cases hu
  cases hs
  exact { hx with
    snap := fun s hs => by
      obtain ⟨h0,h1,h2,h3⟩ := hx.snap s hs
      exact ⟨h0,h1,h2.trans hc,h3⟩
    applied := ha
    reach := hx.reach.trans hc
    hand := fun h hp => { hx.hand h hp with committed := (hx.hand h hp).committed.trans hc } }

/-- A snapshot ahead of the commit index, and of the one in storage, replaces the log. -/
theorem Base.restore {s : Snapshot} (hx : x.Base) (h : x.log.committed<s.index)
    (hold : x.log.storage.snapshot.index<s.index) :
    ({ x with log := x.log.restore s } : LogSession).Base := by
  have hreach := hx.reach
  have hbase := hx.base
  have hset := x.settled_le_reach
  exact {
    pos := Nat.le_add_left _ _
    unstable := Numbered.nil _
    stored := hx.stored
    snap := by
      intro s' hs
      cases hs
      exact ⟨by omega,Nat.lt_succ_self _,le_rfl,by change x.settled<_; omega⟩
    applied := hx.applied.trans h.le
    beyond := by
      intro _
      have hlast : (x.log.restore s).lastIndex=s.index := RaftLog.lastIndex_of_snapshot rfl rfl
      change (x.log.restore s).lastIndex<s.index+1
      omega
    reach := hreach.trans h.le
    stocked := hx.stocked
    base := hx.base
    ahead := fun hne => absurd rfl hne
    agree := by
      intro i _ hr hi
      change i≤x.reach at hr
      change s.index+1 ≤ i at hi
      omega
    agreeDummy := by
      intro hd
      change s.index+1≤x.log.storage.dummy.index at hd
      omega
    newest := by
      intro s' hs
      cases hs
      exact .inl hold
    hand := by
      intro h' hp
      have hh := hx.hand h' hp
      have hc := hh.committed
      exact { hh with
        committed := hc.trans h.le
        kept := by
          intro i hi hic
          change s.index+1 ≤ i at hi
          omega
        tail := fun hne => absurd rfl hne
        alive := fun _ _ => ⟨s,rfl,by omega⟩
        source := .inl ⟨s,rfl,by omega⟩ }
    idle := hx.idle }

theorem source_isEmpty {h : Handout} : h.source=none ↔ isEmptySnap h.snapshot=true := by
  simp [Handout.source]

theorem source_eq_some {h : Handout} {s : Snapshot} (hs : h.source=some s) :
    s=h.snapshot ∧ isEmptySnap h.snapshot=false := by
  unfold Handout.source at hs
  split_ifs at hs with he
  exact ⟨(Option.some.inj hs).symm,Bool.eq_false_iff.mpr he⟩

theorem source_of_nonempty {h : Handout} (he : isEmptySnap h.snapshot=false) :
    h.source=some h.snapshot := by
  unfold Handout.source
  rw [he]
  rfl

section

variable [Raftpb]

/-- The last index of the entries to apply lies between the pending snapshot and the
commit index. -/
theorem Base.cursor {h : Handout} (hx : x.Base) (hh : x.log.handout=.ok h) :
    h.entries=x.log.unstable.entries ∧ h.snapshot=x.log.unstable.snapshot.getD {} ∧
      h.offset=x.log.unstable.offset ∧ h.committed=x.log.committed ∧
      h.cursor≤x.log.committed ∧ h.snapshot.index≤h.cursor := by
  obtain ⟨ents,hn,hh⟩ := bind_eq_ok.mp hh
  cases hh
  refine ⟨rfl,rfl,rfl,rfl,?_⟩
  have hsnap : (x.log.unstable.snapshot.getD {}).index≤x.log.committed ∧
      (x.log.unstable.snapshot.getD {}).index<x.log.firstIndex := by
    cases hs : x.log.unstable.snapshot with
    | none => exact ⟨Nat.zero_le _,by rw [RaftLog.firstIndex_of_stable hs]; exact Nat.succ_pos _⟩
    | some s =>
      obtain ⟨-,-,hc,-⟩ := hx.snap s hs
      exact ⟨hc,by rw [RaftLog.firstIndex_of_snapshot hs]; exact Nat.lt_succ_self _⟩
  obtain ⟨hreads,hle,-⟩ := RaftLog.nextEnts_reads hn
  cases hlast : ents.getLast? with
  | none => exact ⟨hsnap.1,le_rfl⟩
  | some e =>
    have hne : ents≠[] := by
      rintro rfl
      cases hlast
    have hlen := List.length_pos_of_ne_nil hne
    have hle := hle hne
    rw [List.getLast?_eq_getElem?] at hlast
    have hi := RaftLog.entryAt_index hx.pos hx.stored hx.unstable (hreads _ e hlast)
    dsimp only
    omega

theorem Base.handout_source {h : Handout} (hx : x.Base) (hh : x.log.handout=.ok h) :
    x.log.unstable.snapshot=h.source := by
  obtain ⟨-,hsn,-⟩ := hx.cursor hh
  cases hs : x.log.unstable.snapshot with
  | none =>
    rw [hs] at hsn
    rw [eq_comm,source_isEmpty,hsn]
    rfl
  | some s =>
    rw [hs] at hsn
    obtain ⟨h0,-⟩ := hx.snap s hs
    rw [source_of_nonempty,hsn]
    · rfl
    · rw [hsn]
      exact decide_eq_false (Nat.ne_of_gt h0)

theorem Base.handout_own {h : Handout} (hx : x.Base) (hh : x.log.handout=.ok h)
    (hne : isEmptySnap h.snapshot=false) : x.log.unstable.snapshot=some h.snapshot := by
  rw [hx.handout_source hh,source_of_nonempty hne]

omit [Raftpb] in
/-- With no handout around, storage has no snapshot as new as the pending one. -/
theorem Base.newest_idle (hx : x.Base) (hp : x.pending=none) (s : Snapshot)
    (hs : x.log.unstable.snapshot=some s) : x.log.storage.snapshot.index<s.index := by
  rcases hx.newest s hs with hlt | ⟨hstage,-⟩
  · exact hlt
  · exact absurd (hx.idle hp) hstage

/-- A handout as it leaves the log. -/
theorem Base.ready_hand {h : Handout} (hx : x.Base) (hp : x.pending=none)
    (hlast : x.log.committed≤x.log.lastIndex) (hh : x.log.handout=.ok h) :
    ({ x with pending := some h, stage := .handed } : LogSession).Hand h := by
  obtain ⟨he,hsn,ho,hc,hcur,hlow⟩ := hx.cursor hh
  have hsource := hx.handout_source hh
  have hown := hx.handout_own hh
  exact {
    pos := ho ▸ hx.pos
    numbered := by
      rw [ho,he]
      exact hx.unstable
    cursor := hc ▸ hcur
    committed := hc.le
    settled := by
      rw [hc]
      exact x.settled_le_reach.trans hx.reach
    kept := by
      intro i hi hic
      rw [hc] at hic
      change x.log.unstable.offset ≤ i at hi
      -- the log reaches the commit index, so the position is one of its last entries
      have hne : x.log.unstable.entries≠[] := by
        intro hnil
        have := hx.beyond hnil
        omega
      have hpos := hx.pos
      rw [RaftLog.lastIndex_of_entries hne] at hlast
      rw [he,ho]
      exact ⟨hi,by omega,Unstable.entryAt_of_le hi⟩
    tail := fun _ => .inl ⟨he.symm,ho.symm⟩
    alive := fun hne hnil => absurd (he.trans hnil) hne
    source := .inr hsource
    snapshot := by
      intro hne
      obtain ⟨-,hlt,-⟩ := hx.snap _ (hown hne)
      exact ⟨hlow,ho ▸ hlt⟩
    cover := by
      intro hne
      rw [he] at hne
      have := RaftLog.lastIndex_of_entries hne
      have := hx.pos
      rw [he,ho]
      omega
    coverSnap := by
      intro hnil hne
      rw [he] at hnil
      have := RaftLog.lastIndex_of_snapshot hnil (hown hne)
      omega
    behind := fun hne => (hx.snap _ (hown hne)).2.2.2
    ahead := by
      intro hne
      rw [he] at hne
      rw [ho,he]
      exact hx.ahead hne
    fresh := fun _ hne => hx.newest_idle hp _ (hown hne)
    bare := by
      intro _ hnil hempty
      rw [he] at hnil
      rw [← source_isEmpty,← hsource] at hempty
      have := RaftLog.lastIndex_of_stable hnil hempty
      change h.cursor≤x.log.storage.lastIndex
      omega
    dummy := fun hf => absurd rfl hf
    installed := nofun
    storedEnts := nofun
    content := nofun
    storedSnap := nofun }

/-- A Ready is accepted. -/
theorem Base.ready {h : Handout} (hx : x.Base) (hp : x.pending=none)
    (hlast : x.log.committed≤x.log.lastIndex) (hh : x.log.handout=.ok h) :
    ({ x with pending := some h, stage := .handed } : LogSession).Base := by
  have hr : ({ x with pending := some h, stage := .handed } : LogSession).reach=x.reach := by
    rw [reach_of_handed (hx.idle hp)]
    exact reach_of_handed rfl
  exact { hx with
    reach := hr ▸ hx.reach
    stocked := hr ▸ hx.stocked
    base := hr ▸ hx.base
    agree := hr ▸ hx.agree
    newest := fun s hs => .inl (hx.newest_idle hp s hs)
    idle := fun _ => rfl
    hand := by
      rintro _ ⟨⟩
      exact hx.ready_hand hp hlast hh }

end

theorem install_empty (ms : MemoryStorage) {sn : Snapshot} (h : isEmptySnap sn=true) :
    ms.install sn=ms := if_pos h

theorem install_spec {ms : MemoryStorage} {sn : Snapshot} (he : isEmptySnap sn=false)
    (h : ms.snapshot.index<sn.index) : (ms.install sn).dummy.index=sn.index ∧
      (ms.install sn).dummy.term=sn.term ∧ (ms.install sn).stored=[] ∧
      (ms.install sn).snapshot=sn ∧ (ms.install sn).lastIndex=sn.index ∧
      (ms.install sn).hardState=ms.hardState := by
  obtain ⟨ms',hms,hd,ht,hs,hsn,hh⟩ := MemoryStorage.applySnapshot_spec h
  have hi : ms.install sn=ms' := by
    unfold MemoryStorage.install
    rw [he,hms]
    rfl
  rw [hi]
  refine ⟨hd,ht,hs,hsn,?_,hh⟩
  rw [MemoryStorage.lastIndex_eq,hd,hs]
  rfl

/-- A snapshot in the handout is still pending, unless a newer one is. -/
theorem Hand.pending_snapshot {h : Handout} (hh : x.Hand h) (hne : isEmptySnap h.snapshot=false) :
    ∃ s, x.log.unstable.snapshot=some s ∧ (h.committed<s.index ∨ h.source=some s) := by
  rcases hh.source with ⟨s,hs,hlt⟩ | hs
  · exact ⟨s,hs,.inl hlt⟩
  · rw [source_of_nonempty hne] at hs
    exact ⟨_,hs,.inr (source_of_nonempty hne)⟩

/-- With nothing unstable, no entries were handed out, and no snapshot. -/
theorem Hand.bare_handout {h : Handout} (hh : x.Hand h) (hnil : x.log.unstable.entries=[])
    (hs : x.log.unstable.snapshot=none) : h.entries=[] ∧ isEmptySnap h.snapshot=true := by
  constructor
  · by_contra hne
    obtain ⟨s,hs',-⟩ := hh.alive hne hnil
    rw [hs] at hs'
    cases hs'
  · by_contra hne
    obtain ⟨s,hs',-⟩ := hh.pending_snapshot (Bool.eq_false_iff.mpr hne)
    rw [hs] at hs'
    cases hs'

/-- The end of the log does not depend on what is written for a handout. -/
theorem Hand.lastIndex_write {h : Handout} {ms : MemoryStorage} {st : Stage} (hh : x.Hand h)
    (hms : h.entries=[] → isEmptySnap h.snapshot=true → ms=x.log.storage) :
    (x.write ms st).log.lastIndex=x.log.lastIndex := by
  by_cases hnil : x.log.unstable.entries=[]
  · cases hs : x.log.unstable.snapshot with
    | some s =>
      rw [RaftLog.lastIndex_of_snapshot hnil hs]
      exact RaftLog.lastIndex_of_snapshot hnil hs
    | none =>
      obtain ⟨hents,hempty⟩ := hh.bare_handout hnil hs
      rw [hms hents hempty]
      rfl
  · rw [RaftLog.lastIndex_of_entries hnil]
    exact RaftLog.lastIndex_of_entries hnil

theorem Hand.install_none {h : Handout} (hh : x.Hand h) (hst : x.stage=.handed)
    (he : isEmptySnap h.snapshot=true) :
    ({ x with stage := .installed } : LogSession).Hand h := by
  have hfull : isEmptySnap h.snapshot≠false := by
    rw [he]
    nofun
  exact { hh with
    fresh := nofun
    bare := fun _ hnil _ => hh.bare (by rw [hst]; decide) hnil he
    dummy := fun _ hne => absurd hne hfull
    installed := fun _ hne => absurd hne hfull
    storedEnts := nofun
    content := nofun
    storedSnap := nofun }

theorem Hand.install_some {h : Handout} (hh : x.Hand h) (hst : x.stage=.handed)
    (he : isEmptySnap h.snapshot=false) :
    (x.write (x.log.storage.install h.snapshot) .installed).Hand h := by
  obtain ⟨hd,ht,-,-,hl,-⟩ := install_spec he (hh.fresh hst he)
  exact { hh with
    fresh := nofun
    bare := fun _ _ hempty => by rw [he] at hempty; cases hempty
    dummy := fun _ _ => ⟨hd,ht⟩
    installed := fun _ _ => hl
    storedEnts := nofun
    content := nofun
    storedSnap := nofun }

/-- A handout without a snapshot: nothing is written. -/
theorem Base.install_none {h : Handout} (hx : x.Base) (hp : x.pending=some h)
    (hst : x.stage=.handed) (he : isEmptySnap h.snapshot=true) :
    ({ x with stage := .installed } : LogSession).Base := by
  have hzero : h.snapshot.index=0 := of_decide_eq_true he
  have hreach : ({ x with stage := .installed } : LogSession).reach=
      max x.settled h.snapshot.index := reach_of_installed hp rfl
  have hr : ({ x with stage := .installed } : LogSession).reach=x.reach := by
    rw [hreach,reach_of_handed hst,hzero,Nat.max_zero]
  exact { hx with
    reach := hr ▸ hx.reach
    stocked := hr ▸ hx.stocked
    base := hr ▸ hx.base
    agree := hr ▸ hx.agree
    newest := by
      intro s hs
      rcases hx.newest s hs with hlt | ⟨hne,-⟩
      · exact .inl hlt
      · exact absurd hst hne
    hand := by
      intro h' hp'
      cases hp.symm.trans hp'
      exact (hx.hand h hp).install_none hst he
    idle := fun hnone => absurd (hp.symm.trans hnone) (Option.some_ne_none h) }

/-- A snapshot replaces all that is stored. -/
theorem Base.install_some {h : Handout} (hx : x.Base) (hp : x.pending=some h)
    (hst : x.stage=.handed) (he : isEmptySnap h.snapshot=false) :
    (x.write (x.log.storage.install h.snapshot) .installed).Base := by
  have hh := hx.hand h hp
  obtain ⟨hd,-,hs,hsn,hl,-⟩ := install_spec he (hh.fresh hst he)
  obtain ⟨hcur,hoff⟩ := hh.snapshot he
  have hcom := hh.cursor
  have hc := hh.committed
  have hreach : (x.write (x.log.storage.install h.snapshot) .installed).reach=
      max x.settled h.snapshot.index := reach_of_installed hp rfl
  rw [max_eq_right (hh.behind he).le] at hreach
  have hlast : (x.write (x.log.storage.install h.snapshot) .installed).log.lastIndex=
      x.log.lastIndex := hh.lastIndex_write (fun _ hempty => install_empty x.log.storage hempty)
  exact { hx with
    stored := by
      change Numbered (x.log.storage.install h.snapshot).dummy.index
        (x.log.storage.install h.snapshot).stored
      rw [hs]
      exact Numbered.nil _
    beyond := by
      intro hnil
      have hlt := hx.beyond hnil
      rw [← hlast] at hlt
      exact hlt
    reach := by
      rw [hreach]
      change h.snapshot.index≤x.log.committed
      omega
    stocked := by
      rw [hreach]
      exact hl.ge
    base := by
      rw [hreach]
      exact hd.le
    agree := by
      intro i hi hr
      rw [hreach] at hr
      change (x.log.storage.install h.snapshot).dummy.index < i at hi
      omega
    agreeDummy := by
      intro ho
      -- the unstable entries start behind the snapshot
      change x.log.unstable.offset≤(x.log.storage.install h.snapshot).dummy.index at ho
      rw [hd] at ho
      obtain ⟨hle,-⟩ := hh.kept _ ho (hcur.trans hcom)
      omega
    newest := by
      intro s hs'
      change (x.log.storage.install h.snapshot).snapshot.index<s.index ∨ _
      obtain ⟨s',hs'',hcase⟩ := hh.pending_snapshot he
      cases hs'.symm.trans hs''
      rcases hcase with hlt | hown
      · left
        rw [hsn]
        omega
      · exact .inr ⟨nofun,h,hp,hown⟩
    hand := by
      intro h' hp'
      cases hp.symm.trans hp'
      exact hh.install_some hst he
    idle := fun hnone => absurd (hp.symm.trans hnone) (Option.some_ne_none h) }

/-- The snapshot of the handout is written to storage. -/
theorem Base.install {h : Handout} (hx : x.Base) (hp : x.pending=some h)
    (hst : x.stage=.handed) :
    (x.write (x.log.storage.install h.snapshot) .installed).Base := by
  cases he : isEmptySnap h.snapshot with
  | true =>
    rw [install_empty _ he]
    exact hx.install_none hp hst he
  | false => exact hx.install_some hp hst he

/-- The storage once the entries of a handout are written, too. -/
structure Hand.Written (x : LogSession) (h : Handout) (ms : MemoryStorage) : Prop where
  stored : Numbered ms.dummy.index ms.stored
  dummy : ms.dummy=x.log.storage.dummy
  snapshot : ms.snapshot=x.log.storage.snapshot
  ents : h.entries≠[] → h.offset-1≤x.log.storage.lastIndex ∧
    ms.lastIndex+1=h.offset+h.entries.length ∧
    (∀ i<h.offset, ms.entryAt i=x.log.storage.entryAt i) ∧
    ∀ i, h.offset ≤ i → ms.dummy.index < i → ms.entryAt i=h.entries[i-h.offset]?
  none : h.entries=[] → ms=x.log.storage

theorem Base.written {h : Handout} {ms : MemoryStorage} (hx : x.Base) (hp : x.pending=some h)
    (hst : x.stage=.installed) (hms : x.log.storage.append h.entries=.ok ms) :
    Hand.Written x h ms := by
  have hh := hx.hand h hp
  have hpos := hh.pos
  by_cases hne : h.entries=[]
  · rw [hne] at hms
    cases hms
    exact ⟨hx.stored,rfl,rfl,fun hf => absurd hne hf,fun _ => rfl⟩
  · have hlt : x.log.storage.dummy.index<h.offset-1+h.entries.length := by
      have hbase := hx.base
      have hahead := hh.ahead hne
      have hlen := List.length_pos_of_ne_nil hne
      rw [reach_of_installed hp hst] at hbase
      cases he : isEmptySnap h.snapshot with
      | true =>
        have hzero : h.snapshot.index=0 := of_decide_eq_true he
        omega
      | false =>
        have := (hh.snapshot he).2
        omega
    obtain ⟨hq,hd,hs,-,hn,hl,hlow,hhigh⟩ :=
      MemoryStorage.append_placed hx.stored hh.numbered hlt hne hms
    refine ⟨hd ▸ hn,hd,hs,fun _ => ⟨hq,by omega,fun i hi => hlow i (by omega),fun i hi hdi => ?_⟩,
      fun hf => absurd hf hne⟩
    rw [hhigh i (by omega) (hd ▸ hdi)]
    congr 1
    omega

theorem Base.store_lastIndex {h : Handout} {ms : MemoryStorage} (hx : x.Base)
    (hp : x.pending=some h) (hst : x.stage=.installed)
    (hms : x.log.storage.append h.entries=.ok ms) :
    (x.write ms .stored).log.lastIndex=x.log.lastIndex :=
  (hx.hand h hp).lastIndex_write (fun hnil _ => (hx.written hp hst hms).none hnil)

theorem Hand.store {h : Handout} {ms : MemoryStorage} (hh : x.Hand h) (hst : x.stage=.installed)
    (hw : Written x h ms) : (x.write ms .stored).Hand h := by
  have hne : x.stage≠.handed := by
    rw [hst]
    decide
  exact { hh with
    fresh := nofun
    bare := fun hf => absurd rfl hf
    dummy := fun _ he => by
      change ms.dummy.index=_ ∧ ms.dummy.term=_
      rw [hw.dummy]
      exact hh.dummy hne he
    installed := nofun
    storedEnts := fun _ hents => (hw.ents hents).2.1
    content := fun _ hents => (hw.ents hents).2.2.2
    storedSnap := fun _ hnil he => by
      change ms.lastIndex=_
      rw [hw.none hnil]
      exact hh.installed hst he }

/-- What is stored reaches the end of what the handout lets the application apply. -/
theorem Base.store_stocked {h : Handout} {ms : MemoryStorage} (hx : x.Base)
    (hp : x.pending=some h) (hst : x.stage=.installed) (hw : Hand.Written x h ms) :
    max x.settled h.cursor ≤ ms.lastIndex := by
  have hh := hx.hand h hp
  by_cases hnil : h.entries=[]
  · have hz := hx.stocked
    rw [reach_of_installed hp hst] at hz
    rw [hw.none hnil]
    cases he : isEmptySnap h.snapshot with
    | true =>
      have hk := hh.bare (by rw [hst]; decide) hnil he
      omega
    | false =>
      have hk := hh.coverSnap hnil he
      omega
  · obtain ⟨-,hl,-⟩ := hw.ents hnil
    have hz := hh.ahead hnil
    have hk := hh.cover hnil
    omega

/-- The entries of the handout are written to storage. -/
theorem Base.store {h : Handout} {ms : MemoryStorage} (hx : x.Base) (hp : x.pending=some h)
    (hst : x.stage=.installed) (hms : x.log.storage.append h.entries=.ok ms) :
    (x.write ms .stored).Base := by
  have hh := hx.hand h hp
  have hw := hx.written hp hst hms
  have hold := reach_of_installed hp hst
  have hreach : (x.write ms .stored).reach=
      max x.settled h.cursor := reach_of_stored hp rfl
  have hcap : max x.settled h.cursor≤h.committed := max_le hh.settled hh.cursor
  exact { hx with
    stored := hw.stored
    beyond := by
      intro hnil
      have hlt := hx.beyond hnil
      rw [← hx.store_lastIndex hp hst hms] at hlt
      exact hlt
    reach := by
      rw [hreach]
      exact hcap.trans hh.committed
    stocked := by
      rw [hreach]
      exact hx.store_stocked hp hst hw
    base := by
      rw [hreach]
      change ms.dummy.index≤_
      have hbase := hx.base
      rw [hold] at hbase
      rw [hw.dummy]
      cases he : isEmptySnap h.snapshot with
      | true =>
        have hzero : h.snapshot.index=0 := of_decide_eq_true he
        omega
      | false =>
        have := (hh.snapshot he).1
        omega
    agree := by
      intro i hd hr hi
      rw [hreach] at hr
      change ms.entryAt i=x.log.unstable.entryAt i
      change x.log.unstable.offset ≤ i at hi
      obtain ⟨ho,hlt,hat⟩ := hh.kept i hi (hr.trans hcap)
      have hents : h.entries≠[] := by
        intro hnil
        rw [hnil,List.length_nil] at hlt
        omega
      obtain ⟨-,-,-,hhigh⟩ := hw.ents hents
      rw [hhigh i ho hd,hat]
    agreeDummy := by
      intro ho
      change x.log.unstable.offset ≤ ms.dummy.index at ho
      change (x.log.unstable.entryAt ms.dummy.index).map Entry.term=some ms.dummy.term
      rw [hw.dummy] at ho ⊢
      exact hx.agreeDummy ho
    newest := by
      intro s hs
      change ms.snapshot.index<s.index ∨ _
      rw [hw.snapshot]
      rcases hx.newest s hs with hlt | ⟨-,hown⟩
      · exact .inl hlt
      · exact .inr ⟨nofun,hown⟩
    hand := by
      intro h' hp'
      cases hp.symm.trans hp'
      exact hh.store hst hw
    idle := fun hnone => absurd (hp.symm.trans hnone) (Option.some_ne_none h) }

theorem Hand.compact {h : Handout} {k : Nat} {ms : MemoryStorage} (hh : x.Hand h)
    (hn : Numbered x.log.storage.dummy.index x.log.storage.stored) (hk : k≤x.settled)
    (hs : x.stage=.stored) (hms : x.log.storage.compact k=.ok (.ok ms)) :
    (x.write ms x.stage).Hand h := by
  obtain ⟨hd,-,hdummy,-,hlast,-,-,-,hat⟩ := MemoryStorage.compact_spec hn hms
  exact { hh with
    fresh := fun hf => by rw [show x.stage=.handed from hf] at hs; cases hs
    bare := fun hf => absurd hs hf
    dummy := fun _ hne => by
      -- the snapshot is ahead of everything that was applied before it
      have hdum := (hh.dummy (by rw [hs]; decide) hne).1
      have hbehind := hh.behind hne
      omega
    installed := fun hf => by rw [show x.stage=.installed from hf] at hs; cases hs
    storedEnts := fun _ hne => by
      change ms.lastIndex+1=_
      rw [hlast]
      exact hh.storedEnts hs hne
    content := fun _ hne i ho hi => by
      change ms.dummy.index < i at hi
      rw [hdummy] at hi
      change ms.entryAt i=_
      rw [hat i hi]
      exact hh.content hs hne i ho (hd.trans hi)
    storedSnap := fun _ hnil hne => by
      change ms.lastIndex=_
      rw [hlast]
      exact hh.storedSnap hs hnil hne }

/-- Compact drops what has been applied, not between producing and saving a Ready. -/
theorem Base.compact {k : Nat} {ms : MemoryStorage} (hx : x.Base) (hk : k≤x.settled)
    (hst : x.pending≠none → x.stage=.stored) (hms : x.log.storage.compact k=.ok (.ok ms)) :
    (x.write ms x.stage).Base := by
  obtain ⟨hd,hle,hdummy,⟨e,he,hterm⟩,hlast,hsnap,-,hn,hat⟩ :=
    MemoryStorage.compact_spec hx.stored hms
  have hkr : k≤x.reach := hk.trans x.settled_le_reach
  exact { hx with
    stored := by
      change Numbered ms.dummy.index ms.stored
      rw [hdummy]
      exact hn
    beyond := by
      intro hnil
      have hlt := hx.beyond hnil
      unfold write RaftLog.lastIndex at *
      dsimp only at *
      rwa [hlast]
    stocked := by
      change x.reach ≤ ms.lastIndex
      rw [hlast]
      exact hx.stocked
    base := by
      change ms.dummy.index≤x.reach
      rw [hdummy]
      exact hkr
    agree := by
      intro i hi hr ho
      change ms.dummy.index < i at hi
      rw [hdummy] at hi
      change ms.entryAt i=_
      rw [hat i hi]
      exact hx.agree i (hd.trans hi) hr ho
    agreeDummy := by
      intro ho
      change x.log.unstable.offset ≤ ms.dummy.index at ho
      change (x.log.unstable.entryAt ms.dummy.index).map Entry.term=some ms.dummy.term
      rw [hdummy] at ho ⊢
      rw [← hx.agree k hd hkr ho,he,hterm]
      rfl
    newest := by
      intro s hs
      change ms.snapshot.index<_ ∨ _
      rw [hsnap]
      exact hx.newest s hs
    hand := by
      intro h hp
      have hs : x.stage=.stored := hst (by rw [show x.pending=some h from hp]; simp)
      exact (hx.hand h hp).compact hx.stored hk hs hms }

theorem confirms_of_last {l : RaftLog} {ents : List Entry} {e : Entry} (h : ents.getLast?=some e) :
    l.confirms ents=true ↔ l.unstable.offset≤e.index ∧
      (l.unstable.entryAt e.index).map Entry.term=some e.term := by
  unfold RaftLog.confirms
  rw [h]
  exact Bool.and_eq_true_iff.trans (and_congr decide_eq_true_iff decide_eq_true_iff)

/-- The last entry of a numbered list, and where it stands. -/
theorem numbered_getLast {p : Nat} {ents : List Entry} (hn : Numbered p ents) (hne : ents≠[]) :
    ∃ e, ents.getLast?=some e ∧ ents[ents.length-1]?=some e ∧ e.index=p+ents.length := by
  have hlen := List.length_pos_of_ne_nil hne
  obtain ⟨e,he⟩ : ∃ e, ents[ents.length-1]?=some e :=
    ⟨_,List.getElem?_eq_getElem (Nat.sub_lt hlen Nat.one_pos)⟩
  refine ⟨e,by rw [List.getLast?_eq_getElem?,he],he,?_⟩
  rw [hn _ e he]
  omega

theorem stableSnapTo_spec (u : Unstable) (i : Nat) :
    (u.stableSnapTo i).snapshot=
      (if u.snapshot.map Snapshot.index=some i then none else u.snapshot) ∧
    (u.stableSnapTo i).entries=u.entries ∧ (u.stableSnapTo i).offset=u.offset := by
  unfold Unstable.stableSnapTo
  cases hs : u.snapshot with
  | none => exact ⟨hs,rfl,rfl⟩
  | some s =>
    simp only [Option.map_some,Option.some.injEq]
    split_ifs
    · exact ⟨rfl,rfl,rfl⟩
    · exact ⟨hs,rfl,rfl⟩

/-- The unstable log u after Advance: what storage holds is dropped when the last entry
handed out is still in place, and the pending snapshot when it is the one handed out. -/
structure Stabilized (l : RaftLog) (h : Handout) (u : Unstable) : Prop where
  snapshot : u.snapshot=if isEmptySnap h.snapshot=false ∧
      l.unstable.snapshot.map Snapshot.index=some h.snapshot.index then none
    else l.unstable.snapshot
  cut : u.entries=l.unstable.entries ∧ u.offset=l.unstable.offset ∧ l.confirms h.entries=false ∨
    h.entries≠[] ∧ l.unstable.offset<h.offset+h.entries.length ∧
      h.offset+h.entries.length≤l.unstable.offset+l.unstable.entries.length ∧
      u.entries=l.unstable.entries.drop (h.offset+h.entries.length-l.unstable.offset) ∧
      u.offset=h.offset+h.entries.length ∧ l.confirms h.entries=true

theorem stabilize_cases (l : RaftLog) {h : Handout} (hn : Numbered (h.offset-1) h.entries)
    (hpos : 1≤h.offset) :
    ∃ u, l.stabilize h.entries h.snapshot={ l with unstable := u } ∧ Stabilized l h u := by
  have hcut : ∃ u1, (match h.entries.getLast? with
        | some e => l.stableTo e.index e.term
        | none => l)={ l with unstable := u1 } ∧ u1.snapshot=l.unstable.snapshot ∧
      (u1.entries=l.unstable.entries ∧ u1.offset=l.unstable.offset ∧ l.confirms h.entries=false ∨
        h.entries≠[] ∧ l.unstable.offset<h.offset+h.entries.length ∧
          h.offset+h.entries.length≤l.unstable.offset+l.unstable.entries.length ∧
          u1.entries=l.unstable.entries.drop (h.offset+h.entries.length-l.unstable.offset) ∧
          u1.offset=h.offset+h.entries.length ∧ l.confirms h.entries=true) := by
    by_cases hne : h.entries=[]
    · rw [hne]
      exact ⟨l.unstable,rfl,rfl,.inl ⟨rfl,rfl,rfl⟩⟩
    · obtain ⟨e,hlast,-,hi⟩ := numbered_getLast hn hne
      rw [hlast]
      refine ⟨l.unstable.stableTo e.index e.term,rfl,?_⟩
      rcases l.unstable.stableTo_cases e.index e.term with ⟨heq,hno⟩ | ⟨hle,ht,heq⟩
      · rw [heq]
        refine ⟨rfl,.inl ⟨rfl,rfl,?_⟩⟩
        rw [Bool.eq_false_iff,ne_eq,confirms_of_last hlast]
        exact hno
      · rw [heq]
        have hsome : (l.unstable.entryAt e.index).isSome := by
          cases hm : l.unstable.entryAt e.index with
          | none =>
            rw [hm] at ht
            cases ht
          | some e' => rfl
        obtain ⟨-,hlt⟩ := Unstable.entryAt_isSome.mp hsome
        have hend : e.index+1=h.offset+h.entries.length := by omega
        refine ⟨rfl,.inr ⟨hne,by omega,by omega,?_,hend,(confirms_of_last hlast).mpr ⟨hle,ht⟩⟩⟩
        rw [hend]
  obtain ⟨u1,h1,hs1,hcases⟩ := hcut
  unfold RaftLog.stabilize
  dsimp only
  rw [h1]
  cases he : isEmptySnap h.snapshot with
  | true =>
    refine ⟨u1,rfl,?_,hcases⟩
    rw [if_neg (by simp [he])]
    exact hs1
  | false =>
    obtain ⟨hsn,hents,hoff⟩ := stableSnapTo_spec u1 h.snapshot.index
    refine ⟨u1.stableSnapTo h.snapshot.index,rfl,?_,?_⟩
    · rw [hsn,hs1]
      simp only [he,true_and]
    · rw [hents,hoff]
      exact hcases

namespace Stabilized

variable {l : RaftLog} {h : Handout} {u : Unstable}

theorem offset_le (hs : Stabilized l h u) : l.unstable.offset≤u.offset := by
  rcases hs.cut with ⟨-,ho,-⟩ | ⟨-,hlt,-,-,ho,-⟩ <;> omega

theorem entryAt (hs : Stabilized l h u) {i : Nat} (hi : u.offset ≤ i) :
    u.entryAt i=l.unstable.entryAt i := by
  rw [Unstable.entryAt_of_le hi,Unstable.entryAt_of_le (hs.offset_le.trans hi)]
  rcases hs.cut with ⟨he,ho,-⟩ | ⟨-,hlt,-,he,ho,-⟩
  · rw [he,ho]
  · rw [he,List.getElem?_drop]
    congr 1
    omega

theorem tail (hs : Stabilized l h u) :
    u.offset+u.entries.length=l.unstable.offset+l.unstable.entries.length := by
  rcases hs.cut with ⟨he,ho,-⟩ | ⟨-,hlt,hle,he,ho,-⟩
  · rw [he,ho]
  · rw [he,ho,List.length_drop]
    omega

theorem numbered (hs : Stabilized l h u) (hpos : 1≤l.unstable.offset)
    (hn : Numbered (l.unstable.offset-1) l.unstable.entries) : Numbered (u.offset-1) u.entries := by
  rcases hs.cut with ⟨he,ho,-⟩ | ⟨-,hlt,-,he,ho,-⟩
  · rw [he,ho]
    exact hn
  · have hdrop := hn.drop (h.offset+h.entries.length-l.unstable.offset)
    have heq : l.unstable.offset-1+(h.offset+h.entries.length-l.unstable.offset)=
        u.offset-1 := by omega
    rw [heq] at hdrop
    rw [he]
    exact hdrop

/-- What is left comes from a log that was not empty. -/
theorem entries_ne (hs : Stabilized l h u) (hne : u.entries≠[]) : l.unstable.entries≠[] := by
  intro hnil
  rcases hs.cut with ⟨he,-⟩ | ⟨-,-,-,he,-⟩
  · exact hne (he.trans hnil)
  · rw [hnil,List.drop_nil] at he
    exact hne he

end Stabilized

/-- A pending snapshot with the index of the handout's is the handout's own. -/
theorem Hand.own_snapshot {h : Handout} (hh : x.Hand h) (hne : isEmptySnap h.snapshot=false)
    (hi : x.log.unstable.snapshot.map Snapshot.index=some h.snapshot.index) :
    x.log.unstable.snapshot=h.source := by
  rcases hh.source with ⟨s,hs,hlt⟩ | hown
  · obtain ⟨s',hs',hi⟩ := Option.map_eq_some_iff.mp hi
    rw [hs] at hs'
    cases hs'
    have := (hh.snapshot hne).1
    have := hh.cursor
    omega
  · exact hown

/-- Then, with no unstable entries, none were handed out. -/
theorem Hand.own_bare {h : Handout} (hh : x.Hand h) (hne : isEmptySnap h.snapshot=false)
    (hi : x.log.unstable.snapshot.map Snapshot.index=some h.snapshot.index)
    (hnil : x.log.unstable.entries=[]) : h.entries=[] := by
  by_contra hents
  obtain ⟨s,hs,hlt⟩ := hh.alive hents hnil
  rw [hs] at hi
  have hi : s.index=h.snapshot.index := Option.some.inj hi
  have := (hh.snapshot hne).1
  have := hh.cursor
  omega

/-- A snapshot that is still pending after Advance is newer than the handout. -/
theorem Hand.newer {h : Handout} {u : Unstable} {s : Snapshot} (hh : x.Hand h)
    (hu : Stabilized x.log h u) (hs : u.snapshot=some s) :
    x.log.unstable.snapshot=some s ∧ h.committed<s.index := by
  rw [hu.snapshot] at hs
  split_ifs at hs with hdrop
  refine ⟨hs,?_⟩
  rcases hh.source with ⟨s',hs',hlt⟩ | hown
  · rw [hs] at hs'
    cases hs'
    exact hlt
  · rw [hs] at hown
    obtain ⟨rfl,hne⟩ := source_eq_some hown.symm
    exact absurd ⟨hne,by rw [hs]; rfl⟩ hdrop

/-- Advance finds the last entry in place when the log is what was handed out. -/
theorem Hand.confirms_same {h : Handout} (hh : x.Hand h) (hne : x.log.unstable.entries≠[])
    (he : x.log.unstable.entries=h.entries) (ho : x.log.unstable.offset=h.offset) :
    x.log.confirms h.entries=true := by
  rw [he] at hne
  obtain ⟨e,hlast,hget,hi⟩ := numbered_getLast hh.numbered hne
  have hpos := hh.pos
  have hlen := List.length_pos_of_ne_nil hne
  have hle : x.log.unstable.offset≤e.index := by omega
  have hidx : e.index-h.offset=h.entries.length-1 := by omega
  rw [confirms_of_last hlast]
  refine ⟨hle,?_⟩
  rw [Unstable.entryAt_of_le hle,he,ho,hidx,hget]
  rfl

/-- So what Advance leaves reaches beyond the commit index of the handout. -/
theorem Hand.left_over {h : Handout} {u : Unstable} (hh : x.Hand h) (hu : Stabilized x.log h u)
    (hne : u.entries≠[]) : h.committed+1<u.offset+u.entries.length := by
  have hold := hu.entries_ne hne
  rw [hu.tail]
  rcases hh.tail hold with ⟨he,ho⟩ | hlt
  · rcases hu.cut with ⟨-,-,hno⟩ | ⟨-,-,-,hdrop,-⟩
    · rw [hh.confirms_same hold he ho] at hno
      cases hno
    · rw [he,ho,Nat.add_sub_cancel_left,List.drop_length] at hdrop
      exact absurd hdrop hne
  · exact hlt

/-- If Advance leaves nothing unstable, storage has all of the log. -/
theorem Base.left_empty {h : Handout} {u : Unstable} (hx : x.Base) (hp : x.pending=some h)
    (hst : x.stage=.stored) (hu : Stabilized x.log h u) (hnil : u.entries=[])
    (hs : u.snapshot=none) : x.log.storage.lastIndex<u.offset := by
  have hh := hx.hand h hp
  rcases hu.cut with ⟨he,ho,-⟩ | ⟨hne,-,-,-,ho,-⟩
  · rw [he] at hnil
    have hlt := hx.beyond hnil
    have hsnap := hu.snapshot
    rw [hs] at hsnap
    rw [ho]
    split_ifs at hsnap with hdrop
    · -- the snapshot of the handout was still pending
      obtain ⟨s,hs',hi⟩ := Option.map_eq_some_iff.mp hdrop.2
      rw [hh.storedSnap hst (hh.own_bare hdrop.1 hdrop.2 hnil) hdrop.1,← hi,
        ← RaftLog.lastIndex_of_snapshot hnil hs']
      exact hlt
    · rw [← RaftLog.lastIndex_of_stable hnil hsnap.symm]
      exact hlt
  · have := hh.storedEnts hst hne
    omega

/-- Advance drops what is stored. -/
theorem Base.advance {h : Handout} (hx : x.Base) (hp : x.pending=some h) (hst : x.stage=.stored) :
    ({ log := x.log.stabilize h.entries h.snapshot
       settled := max x.settled h.cursor } : LogSession).Base := by
  have hh := hx.hand h hp
  have hold : x.reach=max x.settled h.cursor := reach_of_stored hp hst
  obtain ⟨u,hu,hcut⟩ := stabilize_cases x.log hh.numbered hh.pos
  rw [hu]
  have hreach : ({ log := { x.log with unstable := u }, settled := max x.settled h.cursor } :
      LogSession).reach=x.reach := by
    rw [hold]
    rfl
  have hoff := hcut.offset_le
  have hcap : max x.settled h.cursor≤h.committed := max_le hh.settled hh.cursor
  exact {
    pos := hx.pos.trans hoff
    unstable := hcut.numbered hx.pos hx.unstable
    stored := hx.stored
    snap := by
      intro s hs
      obtain ⟨hs,hlt⟩ := hh.newer hcut hs
      obtain ⟨h0,h1,h2,-⟩ := hx.snap s hs
      exact ⟨h0,h1.trans_le hoff,h2,hcap.trans_lt hlt⟩
    applied := hx.applied
    beyond := by
      intro hnil
      change u.entries=[] at hnil
      change RaftLog.lastIndex { x.log with unstable := u }<u.offset
      cases hs : u.snapshot with
      | some s =>
        obtain ⟨-,h1,-⟩ := hx.snap s (hh.newer hcut hs).1
        rw [RaftLog.lastIndex_of_snapshot (l := { x.log with unstable := u }) hnil hs]
        exact h1.trans_le hoff
      | none =>
        rw [RaftLog.lastIndex_of_stable (l := { x.log with unstable := u }) hnil hs]
        exact hx.left_empty hp hst hcut hnil hs
    reach := by
      rw [hreach]
      exact hx.reach
    stocked := by
      rw [hreach]
      exact hx.stocked
    base := by
      rw [hreach]
      exact hx.base
    ahead := fun hne => (Nat.succ_le_succ hcap).trans_lt (hh.left_over hcut hne)
    agree := by
      intro i hd hr hi
      rw [hreach] at hr
      change x.log.storage.entryAt i=u.entryAt i
      rw [hcut.entryAt hi]
      exact hx.agree i hd hr (hoff.trans hi)
    agreeDummy := by
      intro hd
      change (u.entryAt x.log.storage.dummy.index).map Entry.term=_
      rw [hcut.entryAt hd]
      exact hx.agreeDummy (hoff.trans hd)
    newest := by
      intro s hs
      obtain ⟨hs',hlt⟩ := hh.newer hcut hs
      rcases hx.newest s hs' with hold | ⟨-,h',hp',hown⟩
      · exact .inl hold
      · cases hp.symm.trans hp'
        obtain ⟨rfl,hne⟩ := source_eq_some hown
        have := (hh.snapshot hne).1
        have := hh.cursor
        omega
    hand := fun h' hp' => by cases hp'
    idle := fun _ => rfl }

/-- Advance leaves the end of the log where it is, unless it takes entries behind another
snapshot for stored. -/
theorem Base.advance_lastIndex {h : Handout} (hx : x.Base) (hp : x.pending=some h)
    (hst : x.stage=.stored)
    (hH : x.log.confirms h.entries=true → x.log.unstable.snapshot=h.source) :
    (x.log.stabilize h.entries h.snapshot).lastIndex=x.log.lastIndex := by
  have hh := hx.hand h hp
  obtain ⟨u,hu,hsnap,hcases⟩ := stabilize_cases x.log hh.numbered hh.pos
  rw [hu]
  rcases hcases with ⟨he,ho,-⟩ | ⟨hne,hlt,hle,he,ho,hyes⟩
  · by_cases hnil : x.log.unstable.entries=[]
    · split_ifs at hsnap with hdrop
      · obtain ⟨s,hs,hi⟩ := Option.map_eq_some_iff.mp hdrop.2
        have hents := hh.own_bare hdrop.1 hdrop.2 hnil
        rw [RaftLog.lastIndex_of_snapshot hnil hs,hi,← hh.storedSnap hst hents hdrop.1]
        exact RaftLog.lastIndex_of_stable (he.trans hnil) hsnap
      · cases hs : x.log.unstable.snapshot with
        | some s =>
          rw [RaftLog.lastIndex_of_snapshot hnil hs]
          exact RaftLog.lastIndex_of_snapshot (he.trans hnil) (hsnap.trans hs)
        | none =>
          rw [RaftLog.lastIndex_of_stable hnil hs]
          exact RaftLog.lastIndex_of_stable (he.trans hnil) (hsnap.trans hs)
    · have hlast := RaftLog.lastIndex_of_entries (l := { x.log with unstable := u })
        (he.trans_ne hnil)
      rw [hlast,RaftLog.lastIndex_of_entries hnil]
      dsimp only
      rw [he,ho]
  · have hnil : x.log.unstable.entries≠[] := by
      intro hnil
      rw [hnil,List.length_nil] at hle
      omega
    rw [RaftLog.lastIndex_of_entries hnil]
    by_cases hend : u.entries=[]
    · have hall := congrArg List.length (he.symm.trans hend)
      rw [List.length_drop,List.length_nil] at hall
      have hnone : u.snapshot=none := by
        have hs := hH hyes
        rw [hsnap]
        split_ifs with hdrop
        · rfl
        · rw [hs,source_isEmpty]
          by_contra hne
          have hne := Bool.eq_false_iff.mpr hne
          exact hdrop ⟨hne,by rw [hs,source_of_nonempty hne]; rfl⟩
      rw [RaftLog.lastIndex_of_stable (l := { x.log with unstable := u }) hend hnone]
      have := hh.storedEnts hst hne
      dsimp only
      omega
    · rw [RaftLog.lastIndex_of_entries (l := { x.log with unstable := u }) hend]
      dsimp only
      rw [he,ho,List.length_drop]
      omega

/-- The log does not depend on the hard state in storage. -/
theorem Base.hardState (hx : x.Base) (st : HardState) :
    (x.write (x.log.storage.setHardState st) x.stage).Base :=
  { hx with hand := fun h hp => { hx.hand h hp with } }

/-- What can happen to a session. The second argument says which positions a snapshot or
a compaction takes out of the log; the first one is what is known at an Advance. -/
inductive Change [Raftpb] (S : LogSession → Handout → Prop) (x : LogSession) :
    (Nat → Prop) → LogSession → Prop
  | append {q : Nat} {ents : List Entry} {l : RaftLog} (hn : Numbered q ents)
      (h : x.log.append ents=.ok l) : Change S x (fun _ => False) (x.setLog l)
  | cursors {c a : Nat} (hc : x.log.committed≤c) (ha : x.log.applied≤a) (hac : a≤c)
      (hl : c ≤ max x.log.committed x.log.lastIndex) :
      Change S x (fun _ => False) (x.setLog { x.log with committed := c, applied := a })
  | restore {s : Snapshot} (h : x.log.committed<s.index)
      (hold : x.log.storage.snapshot.index<s.index) :
      Change S x (· ≤ s.index) (x.setLog (x.log.restore s))
  | ready {h : Handout} (hp : x.pending=none) (hlast : x.log.committed≤x.log.lastIndex)
      (hh : x.log.handout=.ok h) :
      Change S x (fun _ => False) { x with pending := some h, stage := .handed }
  | install {h : Handout} (hp : x.pending=some h) (hst : x.stage=.handed) :
      Change S x (fun _ => False)
        (x.write (x.log.storage.install h.snapshot) .installed)
  | store {h : Handout} {ms : MemoryStorage} (hp : x.pending=some h) (hst : x.stage=.installed)
      (hms : x.log.storage.append h.entries=.ok ms) :
      Change S x (fun _ => False) (x.write ms .stored)
  | hardState (st : HardState) :
      Change S x (fun _ => False) (x.write (x.log.storage.setHardState st) x.stage)
  | compact {k : Nat} {ms : MemoryStorage} (hk : k≤x.settled)
      (hst : x.pending≠none → x.stage=.stored) (hms : x.log.storage.compact k=.ok (.ok ms)) :
      Change S x (·≤k) (x.write ms x.stage)
  | advance {h : Handout} (hp : x.pending=some h) (hst : x.stage=.stored) (hS : S x h) :
      Change S x (fun _ => False)
        { log := x.log.stabilize h.entries h.snapshot, settled := max x.settled h.cursor }

theorem Base.change [Raftpb] {S : LogSession → Handout → Prop} {C : Nat → Prop} {x' : LogSession}
    (hx : x.Base) (h : Change S x C x') : x'.Base := by
  cases h with
  | append hn h => exact hx.append hn h
  | cursors hc ha hac hl => exact hx.cursors rfl rfl hc hac
  | restore h hold => exact hx.restore h hold
  | ready hp hlast hh => exact hx.ready hp hlast hh
  | install hp hst => exact hx.install hp hst
  | store hp hst hms => exact hx.store hp hst hms
  | hardState st => exact hx.hardState st
  | compact hk hst hms => exact hx.compact hk hst hms
  | advance hp hst hS => exact hx.advance hp hst

end LogSession

end RaftTesting
