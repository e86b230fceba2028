import RaftTesting.Log.Session
import RaftTesting.Protocol.Wire

namespace RaftTesting

/-- The calls on a raftLog, and what the application does with the Ready it works on. -/
inductive LogOp where
  | append (ents : List Entry)
  | maybeAppend (index logTerm committed : Nat) (ents : List Entry)
  | commitTo (tocommit : Nat)
  | maybeCommit (maxIndex term : Nat)
  | appliedTo (i : Nat)
  | restore (s : Snapshot)
  | ready
  | applySnapshot
  | store
  | compact (i : Nat)
  | advance
  deriving DecidableEq

/-- The positions that a snapshot or a compaction takes out of the log. -/
def LogOp.covers : LogOp → Nat → Prop
  | .restore s,i => i ≤ s.index
  | .compact k,i => i≤k
  | _,_ => False

/-- The entry at a position that no snapshot covers. -/
def RaftLog.logged (l : RaftLog) (i : Nat) : Option Entry :=
  if i<l.firstIndex then none else l.entryAt i

/-- The term at the position before the first entry. -/
def RaftLog.baseTerm (l : RaftLog) : Nat :=
  match l.unstable.snapshot with
  | some s => s.term
  | none => l.storage.dummy.term

theorem RaftLog.baseTerm_of_snapshot {l : RaftLog} {s : Snapshot}
    (h : l.unstable.snapshot=some s) : l.baseTerm=s.term := by
  unfold baseTerm
  rw [h]

theorem RaftLog.baseTerm_of_stable {l : RaftLog} (h : l.unstable.snapshot=none) :
    l.baseTerm=l.storage.dummy.term := by
  unfold baseTerm
  rw [h]

theorem RaftLog.logged_congr {l l' : RaftLog} {i : Nat} (hf : l'.firstIndex=l.firstIndex)
    (he : l.firstIndex ≤ i → l'.entryAt i=l.entryAt i) : l'.logged i=l.logged i := by
  unfold logged
  rw [hf]
  split_ifs with hi
  · rfl
  · exact he (Nat.not_lt.mp hi)

namespace LogSession

/-- newLog over a storage. -/
def start (ms : MemoryStorage) (maxNextEntsSize : Nat) : LogSession where
  log := RaftLog.newLogWithSize ms maxNextEntsSize
  settled := ms.dummy.index

section

variable [Raftpb]

/-- An event of the application whose turn it is not leaves the session as it is. -/
def act (x : LogSession) : LogOp → Except Panic LogSession
  | .append ents => do
    let l ← x.log.append ents
    .ok (x.setLog l)
  | .maybeAppend index logTerm committed ents => do
    let (l,_) ← x.log.maybeAppend index logTerm committed ents
    .ok (x.setLog l)
  | .commitTo tocommit => .ok (x.setLog (x.log.commitTo tocommit).1)
  | .maybeCommit maxIndex term => do
    let (l,_) ← x.log.maybeCommit maxIndex term
    .ok (x.setLog l)
  | .appliedTo i => do
    let l ← x.log.appliedTo i
    .ok (x.setLog l)
  | .restore s => .ok (x.setLog (x.log.restore s))
  | .ready =>
    match x.pending with
    | some _ => .ok x
    | none => do
      let h ← x.log.handout
      .ok { x with pending := some h, stage := .handed }
  | .applySnapshot =>
    match x.pending,x.stage with
    | some h,.handed => .ok (x.write (x.log.storage.install h.snapshot) .installed)
    | _,_ => .ok x
  | .store =>
    match x.pending,x.stage with
    | some h,.installed => do
      let ms ← x.log.storage.append h.entries
      .ok (x.write ms .stored)
    | _,_ => .ok x
  | .compact i => do
    match ← x.log.storage.compact i with
    | .ok ms => .ok (x.write ms x.stage)
    | .error _ => .ok x
  | .advance =>
    match x.pending,x.stage with
    | some h,.stored => .ok {
        log := x.log.stabilize h.entries h.snapshot
        settled := max x.settled h.cursor }
    | _,_ => .ok x

def run (x : LogSession) (ops : List LogOp) : Except Panic LogSession := ops.foldlM act x

end

/-- How the calls are made: consecutive entries, snapshots ahead of the commit index, and
compaction of what has been applied, not between producing and saving a Ready. -/
def Fits (x : LogSession) : LogOp → Prop
  | .append ents => InOrder ents
  | .maybeAppend index _ _ ents => Numbered index ents
  | .restore s => x.log.committed<s.index
  | .compact i => i≤x.settled ∧ (x.pending≠none → x.stage=.stored)
  | _ => True

/-- Advance finds its last entry in the log only if that log is still the one it was
handed out from: no other snapshot has replaced it, and storage holds its committed part. -/
def Faithful (x : LogSession) (h : Handout) : Prop :=
  x.log.confirms h.entries=true → x.log.unstable.snapshot=h.source ∧
    ∀ i<h.offset+h.entries.length, x.log.unstable.offset ≤ i → x.log.storage.dummy.index < i →
      i≤x.log.committed → x.log.storage.entryAt i=x.log.unstable.entryAt i

/-- A restored snapshot is newer than the one in storage, and Advance is faithful. -/
def Sound (x : LogSession) : LogOp → Prop
  | .restore s => x.log.storage.snapshot.index<s.index
  | .advance => ∀ h, x.pending=some h → x.stage=.stored → x.Faithful h
  | _ => True

instance decidableFits (x : LogSession) : (op : LogOp) → Decidable (x.Fits op)
  | .append ents => inferInstanceAs (Decidable (InOrder ents))
  | .maybeAppend index _ _ ents => inferInstanceAs (Decidable (Numbered index ents))
  | .restore s => inferInstanceAs (Decidable (x.log.committed<s.index))
  | .compact i => inferInstanceAs (Decidable (i≤x.settled ∧ (x.pending≠none → x.stage=.stored)))
  | .commitTo _ | .maybeCommit _ _ | .appliedTo _ | .ready | .applySnapshot | .store
  | .advance => .isTrue trivial

instance (x : LogSession) (h : Handout) : Decidable (x.Faithful h) :=
  inferInstanceAs (Decidable (_ → _ ∧ _))

instance decidableSound (x : LogSession) : (op : LogOp) → Decidable (x.Sound op)
  | .restore s => inferInstanceAs (Decidable (x.log.storage.snapshot.index<s.index))
  | .advance =>
    match hp : x.pending with
    | none => .isTrue (fun h hs => by rw [hp] at hs; cases hs)
    | some h => decidable_of_iff (x.stage=.stored → x.Faithful h)
        ⟨fun hf h' hs => by rw [hp] at hs; cases hs; exact hf,fun hf => hf h hp⟩
  | .append _ | .maybeAppend _ _ _ _ | .commitTo _ | .maybeCommit _ _ | .appliedTo _ | .ready
  | .applySnapshot | .store | .compact _ => .isTrue trivial

/-- Every operation of a run meets a condition in the state it is made in. -/
def Along [Raftpb] (P : LogSession → LogOp → Prop) : LogSession → List LogOp → Prop
  | _,[] => True
  | x,op::ops => P x op ∧
      match x.act op with
      | .ok x' => Along P x' ops
      | .error _ => True

instance decidableAlong [Raftpb] (P : LogSession → LogOp → Prop)
    [∀ x op, Decidable (P x op)] (x : LogSession) : (ops : List LogOp) → Decidable (x.Along P ops)
  | [] => .isTrue trivial
  | op::ops =>
    have : Decidable (match x.act op with
        | .ok x' => Along P x' ops
        | .error _ => True) :=
      match x.act op with
      | .ok x' => decidableAlong P x' ops
      | .error _ => .isTrue trivial
    inferInstanceAs (Decidable (P x op ∧ _))

/-- Storage and the unstable log follow on each other without a gap. -/
structure Joined (x : LogSession) : Prop where
  base : x.Base
  snap : ∀ s, x.log.unstable.snapshot=some s → x.log.unstable.offset=s.index+1
  stable : x.log.unstable.snapshot=none → x.log.unstable.offset≤x.log.storage.lastIndex+1
  committed : x.log.committed≤x.log.lastIndex
  place : ∀ h, x.pending=some h → x.stage≠.stored → h.entries≠[] → isEmptySnap h.snapshot=true →
    h.offset≤x.log.storage.lastIndex+1
  placeSnap : ∀ h, x.pending=some h → isEmptySnap h.snapshot=false → h.offset=h.snapshot.index+1
  order : ∀ h, x.pending=some h → x.log.unstable.snapshot=h.source →
    x.log.unstable.offset≤h.offset

/-- Between two states of a run the cursors only move up, and a committed entry is lost to
a snapshot or a compaction only. -/
structure Kept (C : Nat → Prop) (x x' : LogSession) : Prop where
  applied : x.log.applied≤x'.log.applied
  committed : x.log.committed≤x'.log.committed
  entries : ∀ i≤x.log.committed, ¬C i → x'.log.logged i=x.log.logged i

theorem Kept.refl (x : LogSession) : Kept (fun _ => False) x x := ⟨le_rfl,le_rfl,fun _ _ _ => rfl⟩

theorem Kept.trans {C C' : Nat → Prop} {x y z : LogSession} (h : Kept C x y) (h' : Kept C' y z) :
    Kept (fun i => C i ∨ C' i) x z where
  applied := h.applied.trans h'.applied
  committed := h.committed.trans h'.committed
  entries := by
    intro i hi hC
    rw [not_or] at hC
    rw [h'.entries i (hi.trans h.committed) hC.2,h.entries i hi hC.1]

theorem Kept.mono {C C' : Nat → Prop} {x y : LogSession} (h : Kept C x y) (hC : ∀ i, C i → C' i) :
    Kept C' x y :=
  ⟨h.applied,h.committed,fun i hi hn => h.entries i hi (fun hc => hn (hC i hc))⟩

variable {x : LogSession}

theorem Hand.source_none {h : Handout} (hh : x.Hand h) (hs : x.log.unstable.snapshot=none) :
    h.source=none := by
  rcases hh.source with ⟨s,hs',-⟩ | hs'
  · rw [hs] at hs'
    cases hs'
  · rw [← hs',hs]

theorem Joined.append {q : Nat} {ents : List Entry} {l : RaftLog} (hx : x.Joined)
    (hn : Numbered q ents) (h : x.log.append ents=.ok l) :
    (x.setLog l).Joined ∧ Kept (fun _ => False) x (x.setLog l) := by
  have hb := hx.base.append hn h
  by_cases hne : ents=[]
  · subst hne
    cases h
    exact ⟨hx,Kept.refl x⟩
  obtain ⟨u,rfl,hc,-,hsnap,hoff,-,hend,hbelow,-⟩ :=
    RaftLog.append_cases hx.base.unstable hx.base.pos hn hne h
  have hlen : 0<ents.length := List.length_pos_of_ne_nil hne
  refine ⟨⟨hb,?_,?_,?_,hx.place,hx.placeSnap,?_⟩,le_rfl,le_rfl,?_⟩
  · intro s hs
    change u.snapshot=some s at hs
    change u.offset=s.index+1
    rw [hsnap] at hs
    obtain ⟨-,-,hle,-⟩ := hx.base.snap s hs
    rw [hoff,hx.snap s hs]
    omega
  · intro hs
    change u.snapshot=none at hs
    change u.offset≤x.log.storage.lastIndex+1
    rw [hsnap] at hs
    have := hx.stable hs
    omega
  · have hue : u.entries≠[] := by
      intro hnil
      rw [hnil,List.length_nil] at hend
      omega
    change x.log.committed≤RaftLog.lastIndex { x.log with unstable := u }
    rw [RaftLog.lastIndex_of_entries (l := { x.log with unstable := u }) hue]
    dsimp only
    omega
  · intro h' hp hs
    change u.snapshot=h'.source at hs
    change u.offset≤h'.offset
    rw [hsnap] at hs
    have := hx.order h' hp hs
    omega
  · intro i hi _
    refine RaftLog.logged_congr ?_ (fun _ => ?_)
    · change RaftLog.firstIndex { x.log with unstable := u }=_
      unfold RaftLog.firstIndex Unstable.maybeFirstIndex
      dsimp only
      rw [hsnap]
    · change RaftLog.entryAt { x.log with unstable := u } i=_
      unfold RaftLog.entryAt
      dsimp only
      rw [hbelow i (hi.trans hc)]
      split_ifs <;> first | rfl | omega

theorem Joined.cursors {c a : Nat} (hx : x.Joined) (hc : x.log.committed≤c)
    (ha : x.log.applied≤a) (hac : a≤c) (hl : c ≤ max x.log.committed x.log.lastIndex) :
    (x.setLog { x.log with committed := c, applied := a }).Joined ∧
      Kept (fun _ => False) x (x.setLog { x.log with committed := c, applied := a }) := by
  have hlast := hx.committed
  refine ⟨⟨hx.base.cursors rfl rfl hc hac,hx.snap,hx.stable,?_,hx.place,hx.placeSnap,hx.order⟩,
    ha,hc,fun i _ _ => rfl⟩
  change c≤x.log.lastIndex
  omega

theorem Joined.restore {s : Snapshot} (hx : x.Joined) (h : x.log.committed<s.index)
    (hold : x.log.storage.snapshot.index<s.index) : (x.setLog (x.log.restore s)).Joined ∧
      Kept (· ≤ s.index) x (x.setLog (x.log.restore s)) := by
  have hlast : (x.log.restore s).lastIndex=s.index := RaftLog.lastIndex_of_snapshot rfl rfl
  refine ⟨⟨hx.base.restore h hold,?_,?_,?_,hx.place,hx.placeSnap,?_⟩,le_rfl,h.le,?_⟩
  · intro s' hs
    cases hs
    rfl
  · intro hs
    cases hs
  · exact hlast.ge
  · intro h' hp hs
    -- the handout's snapshot is not ahead of the commit index
    obtain ⟨rfl,hne⟩ := source_eq_some hs.symm
    have hh := hx.base.hand h' hp
    have h1 := (hh.snapshot hne).1
    have h2 := hh.cursor
    have h3 := hh.committed
    omega
  · intro i hi hC
    exact absurd (hi.trans h.le) hC

theorem Joined.ready [Raftpb] {h : Handout} (hx : x.Joined) (hp : x.pending=none)
    (hh : x.log.handout=.ok h) :
    ({ x with pending := some h, stage := .handed } : LogSession).Joined := by
  obtain ⟨-,-,ho,-⟩ := hx.base.cursor hh
  have hsource := hx.base.handout_source hh
  refine ⟨hx.base.ready hp hx.committed hh,hx.snap,hx.stable,hx.committed,?_,?_,?_⟩
  · intro h' hp' _ _ hempty
    cases hp'
    rw [ho]
    exact hx.stable (hsource.trans (source_isEmpty.mpr hempty))
  · intro h' hp' hne
    cases hp'
    rw [ho]
    exact hx.snap _ (hsource.trans (source_of_nonempty hne))
  · intro h' hp' _
    cases hp'
    exact ho.ge

/-- A write to storage is not seen through the log when the log does not read there: behind
a pending snapshot it reads nothing, otherwise only what stands below the offset. -/
theorem Joined.write_logged {ms : MemoryStorage} {st : Stage} (hx : x.Joined)
    (hd : x.log.unstable.snapshot=none → ms.dummy=x.log.storage.dummy)
    (hlow : x.log.unstable.snapshot=none → ∀ i<x.log.unstable.offset,
      ms.entryAt i=x.log.storage.entryAt i) :
    (x.write ms st).log.firstIndex=x.log.firstIndex ∧
      (x.write ms st).log.baseTerm=x.log.baseTerm ∧
      ∀ i, (x.write ms st).log.logged i=x.log.logged i := by
  cases hs : x.log.unstable.snapshot with
  | some s =>
    have hf : (x.write ms st).log.firstIndex=x.log.firstIndex := by
      rw [RaftLog.firstIndex_of_snapshot hs]
      exact RaftLog.firstIndex_of_snapshot hs
    refine ⟨hf,?_,fun i => RaftLog.logged_congr hf (fun hi => ?_)⟩
    · rw [RaftLog.baseTerm_of_snapshot hs]
      exact RaftLog.baseTerm_of_snapshot hs
    · rw [RaftLog.firstIndex_of_snapshot hs,← hx.snap s hs] at hi
      rw [RaftLog.entryAt_of_le hi]
      exact RaftLog.entryAt_of_le hi
  | none =>
    have hf : (x.write ms st).log.firstIndex=x.log.firstIndex := by
      rw [RaftLog.firstIndex_of_stable hs,← hd hs]
      exact RaftLog.firstIndex_of_stable hs
    refine ⟨hf,?_,fun i => RaftLog.logged_congr hf (fun _ => ?_)⟩
    · rw [RaftLog.baseTerm_of_stable hs,← hd hs]
      exact RaftLog.baseTerm_of_stable hs
    · by_cases hi : i<x.log.unstable.offset
      · rw [RaftLog.entryAt_of_lt hi,← hlow hs i hi]
        exact RaftLog.entryAt_of_lt hi
      · rw [RaftLog.entryAt_of_le (Nat.not_lt.mp hi)]
        exact RaftLog.entryAt_of_le (Nat.not_lt.mp hi)

theorem Joined.install_logged {h : Handout} (hx : x.Joined) (hp : x.pending=some h) :
    (x.write (x.log.storage.install h.snapshot) .installed).log.firstIndex=x.log.firstIndex ∧
      (x.write (x.log.storage.install h.snapshot) .installed).log.baseTerm=x.log.baseTerm ∧
      ∀ i, (x.write (x.log.storage.install h.snapshot) .installed).log.logged i=
        x.log.logged i := by
  have hh := hx.base.hand h hp
  have hsame : x.log.unstable.snapshot=none →
      x.log.storage.install h.snapshot=x.log.storage := fun hs =>
    install_empty _ (source_isEmpty.mp (hh.source_none hs))
  exact hx.write_logged (fun hs => by rw [hsame hs]) (fun hs i _ => by rw [hsame hs])

theorem Joined.install {h : Handout} (hx : x.Joined) (hp : x.pending=some h)
    (hst : x.stage=.handed) :
    (x.write (x.log.storage.install h.snapshot) .installed).Joined := by
  have hh := hx.base.hand h hp
  have hlast : (x.write (x.log.storage.install h.snapshot) .installed).log.lastIndex=
      x.log.lastIndex := hh.lastIndex_write (fun _ hempty => install_empty x.log.storage hempty)
  refine ⟨hx.base.install hp hst,hx.snap,?_,?_,?_,hx.placeSnap,hx.order⟩
  · intro hs
    change _≤(x.log.storage.install h.snapshot).lastIndex+1
    rw [install_empty _ (source_isEmpty.mp (hh.source_none hs))]
    exact hx.stable hs
  · rw [hlast]
    exact hx.committed
  · intro h' hp' _ hne hempty
    cases hp.symm.trans hp'
    change _≤(x.log.storage.install h.snapshot).lastIndex+1
    rw [install_empty _ hempty]
    exact hx.place h hp (by rw [hst]; decide) hne hempty

theorem Joined.store_logged {h : Handout} {ms : MemoryStorage} (hx : x.Joined)
    (hp : x.pending=some h) (hst : x.stage=.installed)
    (hms : x.log.storage.append h.entries=.ok ms) :
    (x.write ms .stored).log.firstIndex=x.log.firstIndex ∧
      (x.write ms .stored).log.baseTerm=x.log.baseTerm ∧
      ∀ i, (x.write ms .stored).log.logged i=x.log.logged i := by
  have hw := hx.base.written hp hst hms
  refine hx.write_logged (fun _ => hw.dummy) (fun hs i hi => ?_)
  have hle := hx.order h hp (hs.trans ((hx.base.hand h hp).source_none hs).symm)
  by_cases hne : h.entries=[]
  · rw [hw.none hne]
  · obtain ⟨-,-,hlow,-⟩ := hw.ents hne
    exact hlow i (hi.trans_le hle)

theorem Joined.store {h : Handout} {ms : MemoryStorage} (hx : x.Joined) (hp : x.pending=some h)
    (hst : x.stage=.installed) (hms : x.log.storage.append h.entries=.ok ms) :
    (x.write ms .stored).Joined := by
  have hh := hx.base.hand h hp
  have hw := hx.base.written hp hst hms
  refine ⟨hx.base.store hp hst hms,hx.snap,?_,?_,?_,hx.placeSnap,hx.order⟩
  · intro hs
    change x.log.unstable.snapshot=none at hs
    change x.log.unstable.offset ≤ ms.lastIndex+1
    by_cases hne : h.entries=[]
    · rw [hw.none hne]
      exact hx.stable hs
    · obtain ⟨-,hl,-⟩ := hw.ents hne
      have := hx.order h hp (hs.trans (hh.source_none hs).symm)
      omega
  · rw [hx.base.store_lastIndex hp hst hms]
    exact hx.committed
  · intro h' hp' hf
    exact absurd rfl hf

/-- The writes of a handout leave no gap in storage, so Append does not panic. -/
theorem Joined.store_ok {h : Handout} (hx : x.Joined) (hp : x.pending=some h)
    (hst : x.stage=.installed) : ∃ ms, x.log.storage.append h.entries=.ok ms := by
  have hh := hx.base.hand h hp
  by_cases hne : h.entries=[]
  · rw [hne]
    exact ⟨_,rfl⟩
  refine MemoryStorage.append_ok hh.numbered ?_
  cases he : isEmptySnap h.snapshot with
  | true =>
    have := hx.place h hp (by rw [hst]; decide) hne he
    omega
  | false =>
    have := hx.placeSnap h hp he
    have := hh.installed hst he
    omega

theorem Joined.compact {k : Nat} {ms : MemoryStorage} (hx : x.Joined) (hk : k≤x.settled)
    (hst : x.pending≠none → x.stage=.stored) (hms : x.log.storage.compact k=.ok (.ok ms)) :
    (x.write ms x.stage).Joined ∧ Kept (·≤k) x (x.write ms x.stage) := by
  have hb := hx.base.compact hk hst hms
  obtain ⟨hd,hle,hdummy,-,hlast,-,-,-,hat⟩ := MemoryStorage.compact_spec hx.base.stored hms
  have hcommitted : (x.write ms x.stage).log.lastIndex=x.log.lastIndex := by
    unfold write RaftLog.lastIndex
    dsimp only
    rw [hlast]
  refine ⟨⟨hb,hx.snap,?_,?_,?_,hx.placeSnap,hx.order⟩,le_rfl,le_rfl,?_⟩
  · intro hs
    change _ ≤ ms.lastIndex+1
    rw [hlast]
    exact hx.stable hs
  · rw [hcommitted]
    exact hx.committed
  · intro h hp hs hne hempty
    change _ ≤ ms.lastIndex+1
    rw [hlast]
    exact hx.place h hp hs hne hempty
  · intro i _ hik
    have hik : k < i := Nat.not_le.mp hik
    have hentry : (x.write ms x.stage).log.entryAt i=x.log.entryAt i := by
      unfold write RaftLog.entryAt
      dsimp only
      rw [hat i hik]
    cases hs : x.log.unstable.snapshot with
    | some s =>
      have hf : (x.write ms x.stage).log.firstIndex=x.log.firstIndex := by
        rw [RaftLog.firstIndex_of_snapshot hs]
        exact RaftLog.firstIndex_of_snapshot hs
      exact RaftLog.logged_congr hf (fun _ => hentry)
    | none =>
      have hf : (x.write ms x.stage).log.firstIndex=ms.dummy.index+1 :=
        RaftLog.firstIndex_of_stable hs
      unfold RaftLog.logged
      rw [hf,hdummy,RaftLog.firstIndex_of_stable hs,if_neg (by omega),if_neg (by omega),hentry]

/-- When Advance drops the unstable entries, or the pending snapshot, storage has taken
their place. -/
theorem Joined.advance_logged {h : Handout} (hx : x.Joined) (hp : x.pending=some h)
    (hst : x.stage=.stored)
    (hH : x.log.confirms h.entries=true → x.log.unstable.snapshot=h.source) :
    (x.log.stabilize h.entries h.snapshot).firstIndex=x.log.firstIndex ∧
      (x.log.stabilize h.entries h.snapshot).baseTerm=x.log.baseTerm ∧
      ∀ i, (x.log.confirms h.entries=true → x.log.unstable.offset ≤ i →
          i<h.offset+h.entries.length → x.log.storage.dummy.index < i →
          x.log.storage.entryAt i=x.log.unstable.entryAt i) →
        (x.log.stabilize h.entries h.snapshot).logged i=x.log.logged i := by
  have hh := hx.base.hand h hp
  obtain ⟨u,hu,hcut⟩ := stabilize_cases x.log hh.numbered hh.pos
  have hsnap := hcut.snapshot
  rw [hu]
  have hfirst : RaftLog.firstIndex { x.log with unstable := u }=x.log.firstIndex ∧
      RaftLog.baseTerm { x.log with unstable := u }=x.log.baseTerm := by
    split_ifs at hsnap with hdrop
    · have hown := hh.own_snapshot hdrop.1 hdrop.2
      rw [source_of_nonempty hdrop.1] at hown
      obtain ⟨hd,ht⟩ := hh.dummy (by rw [hst]; decide) hdrop.1
      rw [RaftLog.firstIndex_of_snapshot hown,RaftLog.baseTerm_of_snapshot hown,← hd,← ht]
      exact ⟨RaftLog.firstIndex_of_stable hsnap,RaftLog.baseTerm_of_stable hsnap⟩
    · unfold RaftLog.firstIndex RaftLog.baseTerm Unstable.maybeFirstIndex
      dsimp only
      rw [hsnap]
      exact ⟨rfl,rfl⟩
  refine ⟨hfirst.1,hfirst.2,fun i hagree => RaftLog.logged_congr hfirst.1 (fun hi => ?_)⟩
  unfold RaftLog.entryAt
  dsimp only
  rcases hcut.cut with ⟨he,ho,-⟩ | ⟨hne,hlt,hle,he,ho,hyes⟩
  · unfold Unstable.entryAt
    rw [he,ho]
  · have hd : x.log.storage.dummy.index < i := by
      cases hs : x.log.unstable.snapshot with
      | none =>
        rw [RaftLog.firstIndex_of_stable hs] at hi
        omega
      | some s =>
        obtain ⟨rfl,hne⟩ := source_eq_some ((hH hyes).symm.trans hs)
        rw [RaftLog.firstIndex_of_snapshot hs] at hi
        have := (hh.dummy (by rw [hst]; decide) hne).1
        omega
    by_cases h1 : i<x.log.unstable.offset
    · rw [if_pos h1,if_pos (by omega)]
    by_cases h2 : i<u.offset
    · rw [if_pos h2,if_neg h1]
      exact hagree hyes (Nat.not_lt.mp h1) (by omega) hd
    · rw [if_neg h2,if_neg h1,hcut.entryAt (Nat.not_lt.mp h2)]

theorem Joined.advance {h : Handout} (hx : x.Joined) (hp : x.pending=some h)
    (hst : x.stage=.stored)
    (hH : x.log.confirms h.entries=true → x.log.unstable.snapshot=h.source) :
    ({ log := x.log.stabilize h.entries h.snapshot
       settled := max x.settled h.cursor } : LogSession).Joined := by
  have hb := hx.base.advance hp hst
  have hlast := hx.base.advance_lastIndex hp hst hH
  have hh := hx.base.hand h hp
  obtain ⟨u,hu,hsnap,hcases⟩ := stabilize_cases x.log hh.numbered hh.pos
  rw [hu] at hb hlast ⊢
  refine ⟨hb,?_,?_,?_,nofun,nofun,nofun⟩
  · intro s hs
    change u.snapshot=some s at hs
    change u.offset=s.index+1
    rw [hsnap] at hs
    split_ifs at hs with hdrop
    rcases hcases with ⟨-,ho,-⟩ | ⟨-,-,-,-,-,hyes⟩
    · rw [ho]
      exact hx.snap s hs
    · -- the pending snapshot is the handout's own and has been dropped
      obtain ⟨rfl,hne⟩ := source_eq_some ((hH hyes).symm.trans hs)
      exact absurd ⟨hne,by rw [hs]; rfl⟩ hdrop
  · intro hs
    change u.snapshot=none at hs
    change u.offset≤x.log.storage.lastIndex+1
    rcases hcases with ⟨-,ho,-⟩ | ⟨hne,-,-,-,ho,-⟩
    · rw [ho]
      rw [hs] at hsnap
      split_ifs at hsnap with hdrop
      · obtain ⟨s,hs',hi⟩ := Option.map_eq_some_iff.mp hdrop.2
        have hoff := hx.snap s hs'
        have hp1 := hx.placeSnap h hp hdrop.1
        by_cases hents : h.entries=[]
        · have := hh.storedSnap hst hents hdrop.1
          omega
        · have := hh.storedEnts hst hents
          omega
      · exact hx.stable hsnap.symm
    · have := hh.storedEnts hst hne
      omega
  · change x.log.committed≤RaftLog.lastIndex { x.log with unstable := u }
    rw [hlast]
    exact hx.committed

/-- Advance takes its entries for stored only if no other snapshot has replaced the log. -/
def Owns (x : LogSession) (h : Handout) : Prop :=
  x.log.confirms h.entries=true → x.log.unstable.snapshot=h.source

/-- Every change keeps storage and the unstable log together. -/
theorem Joined.owned [Raftpb] {C : Nat → Prop} {x' : LogSession} (hx : x.Joined)
    (h : Change Owns x C x') : x'.Joined := by
  cases h with
  | append hn h => exact (hx.append hn h).1
  | cursors hc ha hac hl => exact (hx.cursors hc ha hac hl).1
  | restore h hold => exact (hx.restore h hold).1
  | ready hp hlast hh => exact hx.ready hp hh
  | install hp hst => exact hx.install hp hst
  | store hp hst hms => exact hx.store hp hst hms
  | hardState st => exact { hx with base := hx.base.hardState st }
  | compact hk hst hms => exact (hx.compact hk hst hms).1
  | advance hp hst hS => exact hx.advance hp hst hS

/-- Every change keeps storage and the unstable log together, when Advance is faithful. -/
theorem Joined.change [Raftpb] {C : Nat → Prop} {x' : LogSession} (hx : x.Joined)
    (h : Change Faithful x C x') : x'.Joined ∧ Kept C x x' := by
  cases h with
  | append hn h => exact hx.append hn h
  | cursors hc ha hac hl => exact hx.cursors hc ha hac hl
  | restore h hold => exact hx.restore h hold
  | ready hp hlast hh => exact ⟨hx.ready hp hh,le_rfl,le_rfl,fun _ _ _ => rfl⟩
  | install hp hst =>
    exact ⟨hx.install hp hst,le_rfl,le_rfl,fun i _ _ => (hx.install_logged hp).2.2 i⟩
  | store hp hst hms =>
    exact ⟨hx.store hp hst hms,le_rfl,le_rfl,fun i _ _ => (hx.store_logged hp hst hms).2.2 i⟩
  | hardState st =>
    exact ⟨{ hx with base := hx.base.hardState st },le_rfl,le_rfl,fun _ _ _ => rfl⟩
  | compact hk hst hms => exact hx.compact hk hst hms
  | advance hp hst hS =>
    have hH := fun hyes => (hS hyes).1
    obtain ⟨-,-,hlogged⟩ := hx.advance_logged hp hst hH
    have hsame : ∀ {l : RaftLog} {ents : List Entry} {sn : Snapshot},
        (l.stabilize ents sn).applied=l.applied ∧ (l.stabilize ents sn).committed=l.committed := by
      intro l ents sn
      unfold RaftLog.stabilize
      dsimp only
      split <;> split <;> exact ⟨rfl,rfl⟩
    refine ⟨hx.advance hp hst hH,hsame.1.ge,hsame.2.ge,fun i hi _ => ?_⟩
    exact hlogged i (fun hyes ho hlt hd => (hS hyes).2 i hlt ho hd hi)

theorem Joined.commitTo (hx : x.Joined) (i : Nat) : (x.setLog (x.log.commitTo i).1).Joined ∧
    Kept (fun _ => False) x (x.setLog (x.log.commitTo i).1) := by
  have hc := x.log.committed_le_commitTo i
  have happlied := hx.base.applied
  rw [RaftLog.commitTo_fst] at hc ⊢
  refine hx.cursors hc le_rfl (happlied.trans hc) ?_
  split_ifs <;> omega

theorem Joined.appliedTo {i : Nat} {l : RaftLog} (hx : x.Joined) (h : x.log.appliedTo i=.ok l) :
    (x.setLog l).Joined ∧ Kept (fun _ => False) x (x.setLog l) := by
  rcases RaftLog.appliedTo_spec h with ⟨-,rfl⟩ | ⟨-,hlow,hhigh,rfl⟩
  · exact ⟨hx,Kept.refl x⟩
  · exact hx.cursors le_rfl hlow hhigh (le_max_left _ _)

theorem Joined.maybeAppend {index logTerm committed : Nat} {ents : List Entry} {l : RaftLog}
    {last : Option Nat} (hx : x.Joined) (hn : Numbered index ents)
    (h : x.log.maybeAppend index logTerm committed ents=.ok (l,last)) :
    (x.setLog l).Joined ∧ Kept (fun _ => False) x (x.setLog l) := by
  rcases RaftLog.maybeAppend_cases hn h with rfl | ⟨j,l1,h1,rfl⟩
  · exact ⟨hx,Kept.refl x⟩
  · obtain ⟨hx1,hk1⟩ := hx.append (hn.drop j) h1
    obtain ⟨hx2,hk2⟩ := hx1.commitTo (min committed (index+ents.length))
    exact ⟨hx2,(hk1.trans hk2).mono (fun _ hf => hf.elim id id)⟩

section

variable [Raftpb]

/-- One call, or one step of the application. -/
theorem Joined.act {op : LogOp} {x' : LogSession} (hx : x.Joined) (hf : x.Fits op)
    (hs : x.Sound op) (h : x.act op=.ok x') : x'.Joined ∧ Kept op.covers x x' := by
  have hstay : x.Joined ∧ Kept op.covers x x :=
    ⟨hx,(Kept.refl x).mono (fun _ hf => hf.elim)⟩
  cases op with
  | append ents =>
    obtain ⟨l,hl,h⟩ := bind_eq_ok.mp h
    cases h
    obtain ⟨q,hn⟩ := hf
    exact hx.append hn hl
  | maybeAppend index logTerm committed ents =>
    obtain ⟨⟨l,last⟩,hl,h⟩ := bind_eq_ok.mp h
    cases h
    exact hx.maybeAppend hf hl
  | commitTo i =>
    cases h
    exact hx.commitTo i
  | maybeCommit i t =>
    obtain ⟨⟨l,b⟩,hl,h⟩ := bind_eq_ok.mp h
    cases h
    rcases RaftLog.maybeCommit_spec hl with ⟨-,rfl⟩ | ⟨-,-,-,rfl⟩
    · exact hstay
    · exact hx.commitTo i
  | appliedTo i =>
    obtain ⟨l,hl,h⟩ := bind_eq_ok.mp h
    cases h
    exact hx.appliedTo hl
  | restore s =>
    cases h
    exact hx.restore hf hs
  | ready =>
    unfold LogSession.act at h
    dsimp only at h
    split at h
    · cases h
      exact hstay
    · rename_i hp
      obtain ⟨ho,hh,h⟩ := bind_eq_ok.mp h
      cases h
      exact hx.change (.ready hp hx.committed hh)
  | applySnapshot =>
    unfold LogSession.act at h
    dsimp only at h
    split at h
    · rename_i ho hp hst
      cases h
      exact hx.change (.install hp hst)
    · cases h
      exact hstay
  | store =>
    unfold LogSession.act at h
    dsimp only at h
    split at h
    · rename_i ho hp hst
      obtain ⟨ms,hms,h⟩ := bind_eq_ok.mp h
      cases h
      exact hx.change (.store hp hst hms)
    · cases h
      exact hstay
  | compact k =>
    obtain ⟨res,hms,h⟩ := bind_eq_ok.mp h
    cases res with
    | error e =>
      cases h
      exact hstay
    | ok ms =>
      cases h
      exact hx.compact hf.1 hf.2 hms
  | advance =>
    unfold LogSession.act at h
    dsimp only at h
    split at h
    · rename_i ho hp hst
      cases h
      exact hx.change (.advance hp hst (hs ho hp hst))
    · cases h
      exact hstay

theorem Joined.run {ops : List LogOp} {y : LogSession} (hx : x.Joined)
    (hops : x.Along (fun x op => x.Fits op ∧ x.Sound op) ops) (h : x.run ops=.ok y) :
    y.Joined ∧ Kept (fun i => ∃ op ∈ ops, op.covers i) x y := by
  induction ops generalizing x with
  | nil =>
    cases h
    exact ⟨hx,(Kept.refl _).mono (fun _ hf => hf.elim)⟩
  | cons op ops ih =>
    obtain ⟨x1,h1,h⟩ := bind_eq_ok.mp h
    obtain ⟨⟨hf,hs⟩,hops⟩ := hops
    rw [h1] at hops
    obtain ⟨hx1,hk1⟩ := hx.act hf hs h1
    obtain ⟨hy,hk2⟩ := ih hx1 hops h
    refine ⟨hy,(hk1.trans hk2).mono ?_⟩
    rintro i (hc | ⟨op',hm,hc⟩)
    · exact ⟨op,List.mem_cons_self,hc⟩
    · exact ⟨op',List.mem_cons_of_mem _ hm,hc⟩

end

/-- A log over a storage, with its cursors inside of what is stored. -/
theorem resume_joined {ms : MemoryStorage} (n : Nat) {k a : Nat}
    (h : Numbered ms.dummy.index ms.stored) (ha : ms.dummy.index≤a) (hak : a≤k)
    (hk : k ≤ ms.lastIndex) :
    Joined { log := ⟨ms,⟨none,[],ms.lastIndex+1⟩,k,a,n⟩, settled := a } := by
  have hlast : RaftLog.lastIndex ⟨ms,⟨none,[],ms.lastIndex+1⟩,k,a,n⟩=ms.lastIndex :=
    RaftLog.lastIndex_of_stable rfl rfl
  refine ⟨?_,nofun,fun _ => le_rfl,hlast ▸ hk,nofun,nofun,nofun⟩
  exact {
    pos := Nat.le_add_left _ _
    unstable := Numbered.nil _
    stored := h
    snap := nofun
    applied := hak
    beyond := fun _ => by
      rw [hlast]
      exact Nat.lt_succ_self _
    reach := hak
    stocked := hak.trans hk
    base := ha
    ahead := fun hne => absurd rfl hne
    agree := by
      intro i _ hr ho
      change i≤a at hr
      change ms.lastIndex+1 ≤ i at ho
      omega
    agreeDummy := by
      intro ho
      change ms.lastIndex+1 ≤ ms.dummy.index at ho
      omega
    newest := nofun
    hand := nofun
    idle := fun _ => rfl }

theorem start_joined {ms : MemoryStorage} (n : Nat) (h : Numbered ms.dummy.index ms.stored) :
    (start ms n).Joined :=
  resume_joined n h le_rfl le_rfl ms.dummy_le_lastIndex

/-- In every run the cursors stay in order and only move up, and no committed entry is
changed or removed but by a snapshot or a compaction that covers it. -/
theorem run_committed [Raftpb] {ms : MemoryStorage} {n : Nat} {ops more : List LogOp}
    {x y : LogSession} (hms : Numbered ms.dummy.index ms.stored)
    (hops : (start ms n).Along (fun x op => x.Fits op ∧ x.Sound op) ops)
    (hmore : x.Along (fun x op => x.Fits op ∧ x.Sound op) more)
    (hx : (start ms n).run ops=.ok x) (hy : x.run more=.ok y) :
    x.log.applied≤x.log.committed ∧ x.log.committed≤x.log.lastIndex ∧
      x.log.applied≤y.log.applied ∧ x.log.committed≤y.log.committed ∧
      ∀ i≤x.log.committed, y.log.logged i=x.log.logged i ∨ ∃ op ∈ more, op.covers i := by
  obtain ⟨hjx,-⟩ := (start_joined n hms).run hops hx
  obtain ⟨-,hk⟩ := hjx.run hmore hy
  refine ⟨hjx.base.applied,hjx.committed,hk.applied,hk.committed,fun i hi => ?_⟩
  by_cases hc : ∃ op ∈ more, op.covers i
  · exact .inr hc
  · exact .inl (hk.entries i hi hc)

section

local instance : Raftpb := Wire.small

/-- Entries of term 2 are handed out and replaced by one of term 3; then a snapshot of
their first one and the second one arrive again, before the application has confirmed. -/
def hole : List LogOp :=
  [.append [⟨2,1,.entryNormal,[]⟩,⟨2,2,.entryNormal,[]⟩],.ready,
    .append [⟨3,1,.entryNormal,[]⟩],.restore { index := 1, term := 2 },
    .append [⟨2,2,.entryNormal,[]⟩],.commitTo 2,.applySnapshot,.store,.advance]

/-- Advance then drops a committed entry that stands behind the pending snapshot. -/
theorem run_committed_hole : (start .newMemoryStorage noLimit).Along Fits hole ∧
    ∃ x, (start .newMemoryStorage noLimit).run hole=.ok x ∧ x.log.lastIndex<x.log.committed :=
  ⟨by decide +kernel,_,rfl,by decide +kernel⟩

/-- The tail is replaced while it is being stored, and stored again. -/
def overtaken : List LogOp :=
  [.append [⟨2,1,.entryNormal,[]⟩,⟨2,2,.entryNormal,[]⟩],.commitTo 1,.ready,
    .append [⟨3,2,.entryNormal,[]⟩],.applySnapshot,.store,.advance]

def storedAgain : List LogOp :=
  [.ready,.applySnapshot,.store,.commitTo 2,.advance,.restore { index := 3, term := 4 }]

theorem run_committed_overtaken : ∃ x y,
    (start .newMemoryStorage noLimit).run overtaken=.ok x ∧ x.run storedAgain=.ok y ∧
    x.log.applied≤x.log.committed ∧ x.log.committed≤x.log.lastIndex ∧
      x.log.applied≤y.log.applied ∧ x.log.committed≤y.log.committed ∧
      ∀ i≤x.log.committed, y.log.logged i=x.log.logged i ∨ ∃ op ∈ storedAgain, op.covers i := by
  have hstart : Numbered MemoryStorage.newMemoryStorage.dummy.index
      MemoryStorage.newMemoryStorage.stored := by decide +kernel
  have hops : (start .newMemoryStorage noLimit).Along (fun x op => x.Fits op ∧ x.Sound op)
      overtaken := by decide +kernel
  exact ⟨_,_,rfl,rfl,run_committed hstart hops (by decide +kernel) rfl rfl⟩

end

end LogSession

end RaftTesting
