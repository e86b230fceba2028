import RaftTesting.Log.View

namespace RaftTesting

namespace RaftLog

variable {l : RaftLog}

/-- A position that holds a term other than 0 is one of the log. -/
theorem le_lastIndex_of_matchTerm {i t : Nat} (ht : t≠0) (h : l.matchTerm i t=true) :
    i≤l.lastIndex := by
  by_contra hlt
  have hzero : l.term i=.ok 0 := if_pos (.inr (Nat.not_le.mp hlt))
  unfold matchTerm at h
  rw [hzero] at h
  exact ht (of_decide_eq_true h).symm

/-- The entry before a conflict is one that the log has. -/
theorem findConflict_pred {p j : Nat} {ents : List Entry} (hn : Numbered p ents)
    (h : l.findConflict ents=p+(j+1)+1) :
    ∃ e, ents[j]?=some e ∧ l.matchTerm (p+j+1) e.term=true := by
  induction ents generalizing p j with
  | nil => cases h
  | cons e es ih =>
    have hi : e.index=p+1 := hn.head
    unfold findConflict at h
    split_ifs at h with hm
    · cases j with
      | zero =>
        rw [hi] at hm
        exact ⟨e,rfl,hm⟩
      | succ j =>
        have hnext : l.findConflict es=p+1+(j+1)+1 := by omega
        obtain ⟨e',he,hm'⟩ := ih hn.tail hnext
        refine ⟨e',he,?_⟩
        rwa [show p+(j+1)+1=p+1+j+1 by omega]
    · omega

/-- maybeAppend appends behind a position of the log, if the terms it is told are those of
entries. -/
theorem maybeAppend_within {l' : RaftLog} {index logTerm committed last : Nat}
    {ents : List Entry} (hn : Numbered index ents) (hz : logTerm=0 → index=0)
    (ht : ∀ e ∈ ents, e.term≠0)
    (h : l.maybeAppend index logTerm committed ents=.ok (l',some last)) :
    ∃ j l1, (j<ents.length → index+j≤l.lastIndex) ∧ l.append (ents.drop j)=.ok l1 ∧
      l'=(l1.commitTo (min committed last)).1 := by
  obtain ⟨hmatch,-,l1,h1,rfl⟩ := maybeAppend_spec h
  have hbase : index≤l.lastIndex := by
    by_cases hzero : logTerm=0
    · rw [hz hzero]
      exact Nat.zero_le _
    · exact le_lastIndex_of_matchTerm hzero hmatch
  unfold appendFrom at h1
  rcases l.findConflict_cases hn with hc | ⟨j,hj,hc⟩
  · rw [if_pos hc] at h1
    cases h1
    refine ⟨ents.length,l,fun hlt => absurd hlt (Nat.lt_irrefl _),?_,rfl⟩
    rw [List.drop_length]
    rfl
  · have hdrop : usub (index+j+1) (index+1)=j := by
      rw [usub_of_le (by omega)]
      omega
    rw [hc,if_neg (by omega)] at h1
    split at h1
    · cases h1
    rw [hdrop,if_neg (by omega)] at h1
    refine ⟨j,l1,fun _ => ?_,h1,rfl⟩
    cases j with
    | zero => exact hbase
    | succ j =>
      obtain ⟨e,he,hm⟩ := findConflict_pred hn hc
      exact le_lastIndex_of_matchTerm (ht e (List.mem_of_getElem? he)) hm

section

variable {l' : RaftLog} {q : Nat} {ents : List Entry}

/-- With no snapshot pending a log has no entry past its last index. -/
theorem entryAt_within {i : Nat} {e : Entry} (hs : l.unstable.snapshot=none)
    (h : l.entryAt i=some e) : i≤l.lastIndex := by
  by_cases hlt : i<l.unstable.offset
  · rw [entryAt_of_lt hlt] at h
    have hle := (MemoryStorage.entryAt_isSome.mp (Option.isSome_of_mem h)).2
    by_cases hne : l.unstable.entries=[]
    · rwa [lastIndex_of_stable hne hs]
    · have hlen := List.length_pos_of_ne_nil hne
      rw [lastIndex_of_entries hne]
      omega
  · rw [entryAt_of_le (Nat.not_lt.mp hlt)] at h
    obtain ⟨hle,hend⟩ := Unstable.entryAt_isSome.mp (Option.isSome_of_mem h)
    have hne : l.unstable.entries≠[] := by
      intro hnil
      rw [hnil,List.length_nil] at hend
      omega
    rw [lastIndex_of_entries hne]
    omega

theorem mem_of_entryAt {u : Unstable} {i : Nat} {e : Entry} (h : u.entryAt i=some e) :
    e∈u.entries := by
  obtain ⟨hle,-⟩ := Unstable.entryAt_isSome.mp (Option.isSome_of_mem h)
  rw [Unstable.entryAt_of_le hle] at h
  exact List.mem_of_getElem? h

section

variable (hu : Numbered (l.unstable.offset-1) l.unstable.entries) (hpos : 1≤l.unstable.offset)
  (hn : Numbered q ents) (hne : ents≠[]) (h : l.append ents=.ok l')

include hu hpos hn hne h

/-- An append changes a log past the position it goes on from only. -/
theorem append_entryAt : (∀ i≤q, l'.entryAt i=l.entryAt i) ∧
    ∀ i, q < i → l'.entryAt i=ents[i-q-1]? := by
  obtain ⟨u,rfl,-,-,-,hoff,-,-,hbelow,habove⟩ := append_cases hu hpos hn hne h
  refine ⟨fun i hi => ?_,fun i hi => ?_⟩
  · by_cases hlt : i<u.offset
    · rw [entryAt_of_lt (l := l) (by omega)]
      exact entryAt_of_lt hlt
    · rw [entryAt_of_le (l := l) (by omega),← hbelow i hi]
      exact entryAt_of_le (Nat.not_lt.mp hlt)
  · rw [← habove i hi]
    have hle : u.offset ≤ i := by omega
    exact entryAt_of_le hle

theorem append_mem {e : Entry} (he : e∈l'.unstable.entries) :
    e∈l.unstable.entries ∨ e∈ents := by
  obtain ⟨u,rfl,-,-,-,hoff,-,-,hbelow,habove⟩ := append_cases hu hpos hn hne h
  obtain ⟨k,hk⟩ := List.mem_iff_getElem?.mp he
  have hat : u.entryAt (u.offset+k)=some e := by
    rw [Unstable.entryAt_of_le (Nat.le_add_right _ _),Nat.add_sub_cancel_left]
    exact hk
  by_cases hi : u.offset+k≤q
  · rw [hbelow _ hi] at hat
    exact .inl (mem_of_entryAt hat)
  · rw [habove _ (Nat.not_le.mp hi)] at hat
    exact .inr (List.mem_of_getElem? hat)

/-- What is appended at the end of the unstable entries leaves them in place. -/
theorem append_onto (hold : l.unstable.entries≠[]) (hq : q=l.lastIndex) :
    l'.unstable.offset=l.unstable.offset ∧ l.unstable.entries<+:l'.unstable.entries := by
  obtain ⟨u,rfl,-,-,-,hoff,-,-,hbelow,-⟩ := append_cases hu hpos hn hne h
  have hlen := List.length_pos_of_ne_nil hold
  rw [lastIndex_of_entries hold] at hq
  have hsame : u.offset=l.unstable.offset := by omega
  refine ⟨hsame,List.prefix_iff_getElem?.mpr (fun k hk => ?_)⟩
  have hat := hbelow (u.offset+k) (by omega)
  rw [Unstable.entryAt_of_le (Nat.le_add_right _ _),Nat.add_sub_cancel_left,hsame,
    Unstable.entryAt_of_le (Nat.le_add_right _ _),Nat.add_sub_cancel_left,
    List.getElem?_eq_getElem hk] at hat
  exact hat

end

end

end RaftLog

namespace LogSession

/-- After Advance the log reads an entry where it did before, or from storage what it has
found to be in place. -/
theorem stabilize_entryAt {l : RaftLog} {h : Handout} {i : Nat} {e : Entry}
    (hn : Numbered (h.offset-1) h.entries) (hpos : 1≤h.offset)
    (he : (l.stabilize h.entries h.snapshot).entryAt i=some e) : l.entryAt i=some e ∨
      l.unstable.offset ≤ i ∧ i<h.offset+h.entries.length ∧ l.confirms h.entries=true ∧
        l.storage.entryAt i=some e := by
  obtain ⟨u,hu,hcut⟩ := stabilize_cases l hn hpos
  rw [hu] at he
  rcases hcut.cut with ⟨hents,hoff,-⟩ | ⟨-,hlt,-,hents,hoff,hyes⟩
  · left
    rw [← he]
    unfold RaftLog.entryAt Unstable.entryAt
    dsimp only
    rw [hents,hoff]
  by_cases hhigh : u.offset ≤ i
  · left
    rw [RaftLog.entryAt_of_le (by exact hhigh)] at he
    change u.entryAt i=some e at he
    rw [RaftLog.entryAt_of_le (hcut.offset_le.trans hhigh),← hcut.entryAt hhigh]
    exact he
  rw [RaftLog.entryAt_of_lt (by exact Nat.not_le.mp hhigh)] at he
  change l.storage.entryAt i=some e at he
  by_cases hlow : i<l.unstable.offset
  · left
    rwa [RaftLog.entryAt_of_lt hlow]
  · exact .inr ⟨Nat.not_lt.mp hlow,by omega,hyes,he⟩

/-- The unstable entries join storage, or will once the handout is stored. -/
structure Tidy (x : LogSession) : Prop where
  stable : x.log.unstable.snapshot=none → x.log.unstable.entries≠[] →
    x.log.unstable.offset≤x.log.storage.lastIndex+1
  order : ∀ h, x.pending=some h → x.log.unstable.snapshot=h.source →
    x.log.unstable.offset≤h.offset
  fresh : ∀ h s, x.pending=some h → h.source=some s → x.log.unstable.snapshot=some s →
    h.entries=[] → x.log.unstable.entries≠[] → x.log.unstable.offset ≤ s.index+1

variable {x : LogSession}

theorem Joined.tidy (hx : x.Joined) : x.Tidy :=
  ⟨fun hs _ => hx.stable hs,hx.order,fun _ s _ _ hs _ _ => (hx.snap s hs).le⟩

/-- With no snapshot pending the log can be read through. -/
theorem Tidy.readable (ht : x.Tidy) (hx : x.Base) (hs : x.log.unstable.snapshot=none) :
    x.log.Readable where
  pos := hx.pos
  snap := fun s hs' => by
    rw [hs] at hs'
    cases hs'
  stable := ht.stable
  beyond := hx.beyond
  dummy := fun _ => hx.agreeDummy

/-- The snapshot of a handout is not ahead of the commit index. -/
theorem Hand.source_le {h : Handout} {s : Snapshot} (hh : x.Hand h) (hs : h.source=some s) :
    s.index≤x.log.committed := by
  obtain ⟨rfl,hne⟩ := source_eq_some hs
  exact (hh.snapshot hne).1.trans (hh.cursor.trans hh.committed)

namespace Tidy

theorem append {q : Nat} {ents : List Entry} {l : RaftLog} (ht : x.Tidy) (hx : x.Base)
    (hn : Numbered q ents) (hq : ents≠[] → q≤x.log.lastIndex) (h : x.log.append ents=.ok l) :
    (x.setLog l).Tidy := by
  by_cases hne : ents=[]
  · subst hne
    cases h
    exact ht
  obtain ⟨u,rfl,-,-,hsnap,hoff,-⟩ := RaftLog.append_cases hx.unstable hx.pos hn hne h
  have hq := hq hne
  have hle : u.offset≤x.log.unstable.offset ∧ u.offset≤q+1 := by omega
  refine ⟨fun hs _ => ?_,fun h hp hs => ?_,fun h s hp hsrc hs hnil _ => ?_⟩
  · change u.snapshot=none at hs
    rw [hsnap] at hs
    change u.offset≤x.log.storage.lastIndex+1
    by_cases hold : x.log.unstable.entries=[]
    · rw [RaftLog.lastIndex_of_stable hold hs] at hq
      omega
    · have := ht.stable hs hold
      omega
  · change u.snapshot=h.source at hs
    rw [hsnap] at hs
    exact hle.1.trans (ht.order h hp hs)
  · change u.snapshot=some s at hs
    rw [hsnap] at hs
    change u.offset ≤ s.index+1
    by_cases hold : x.log.unstable.entries=[]
    · rw [RaftLog.lastIndex_of_snapshot hold hs] at hq
      omega
    · have := ht.fresh h s hp hsrc hs hnil hold
      omega

/-- Only the cursors move. -/
theorem cursors {l : RaftLog} (ht : x.Tidy) (hu : l.unstable=x.log.unstable)
    (hs : l.storage=x.log.storage) : (x.setLog l).Tidy := by
  obtain ⟨storage,unstable,committed,applied,size⟩ := l
  cases hu
  cases hs
  exact ⟨ht.stable,ht.order,ht.fresh⟩

theorem restore {s : Snapshot} (hx : x.Base) (h : x.log.committed<s.index) :
    (x.setLog (x.log.restore s)).Tidy := by
  -- a snapshot that was handed out earlier is behind this one
  have hnot : ∀ h', x.pending=some h' → some s≠h'.source := by
    intro h' hp hs
    have := (hx.hand h' hp).source_le hs.symm
    omega
  refine ⟨nofun,fun h' hp hs => absurd hs (hnot h' hp),fun h' s' hp hsrc hs => ?_⟩
  cases hs
  exact absurd hsrc.symm (hnot h' hp)

theorem ready [Raftpb] {h : Handout} (ht : x.Tidy) (hx : x.Base) (hh : x.log.handout=.ok h) :
    ({ x with pending := some h, stage := .handed } : LogSession).Tidy := by
  obtain ⟨he,-,ho,-⟩ := hx.cursor hh
  refine ⟨ht.stable,fun h' hp _ => ?_,fun h' s hp _ _ hnil hne => ?_⟩
  · cases hp
    exact ho.ge
  · cases hp
    exact absurd (he.symm.trans hnil) hne

/-- The application writes to storage. -/
theorem write {ms : MemoryStorage} {st : Stage} (ht : x.Tidy)
    (hms : x.log.unstable.snapshot=none → x.log.unstable.entries≠[] →
      x.log.unstable.offset ≤ ms.lastIndex+1) : (x.write ms st).Tidy :=
  ⟨hms,ht.order,ht.fresh⟩

theorem store {h : Handout} {ms : MemoryStorage} (ht : x.Tidy) (hx : x.Base)
    (hp : x.pending=some h) (hst : x.stage=.installed)
    (hms : x.log.storage.append h.entries=.ok ms) : (x.write ms .stored).Tidy := by
  have hw := hx.written hp hst hms
  refine ht.write (fun hs hne => ?_)
  by_cases hnil : h.entries=[]
  · rw [hw.none hnil]
    exact ht.stable hs hne
  · have hsrc := (hx.hand h hp).source_none hs
    have hord := ht.order h hp (hs.trans hsrc.symm)
    obtain ⟨-,hlast,-⟩ := hw.ents hnil
    omega

theorem compact {k : Nat} {ms : MemoryStorage} (ht : x.Tidy) (hx : x.Base)
    (hms : x.log.storage.compact k=.ok (.ok ms)) : (x.write ms x.stage).Tidy := by
  obtain ⟨-,-,-,-,hlast,-⟩ := MemoryStorage.compact_spec hx.stored hms
  refine ht.write (fun hs hne => ?_)
  rw [hlast]
  exact ht.stable hs hne

/-- The entries that Advance leaves unstable follow on what the application has stored. -/
theorem advance {h : Handout} (ht : x.Tidy) (hx : x.Base) (hp : x.pending=some h)
    (hst : x.stage=.stored) : ({ log := x.log.stabilize h.entries h.snapshot
                                 settled := max x.settled h.cursor } : LogSession).Tidy := by
  have hh := hx.hand h hp
  obtain ⟨u,hu,hsnap,hcases⟩ := stabilize_cases x.log hh.numbered hh.pos
  rw [hu]
  refine ⟨fun hs hne => ?_,nofun,nofun⟩
  change u.snapshot=none at hs
  change u.entries≠[] at hne
  change u.offset≤x.log.storage.lastIndex+1
  rcases hcases with ⟨he,ho,-⟩ | ⟨hents,-,-,-,ho,-⟩
  · rw [ho]
    rw [he] at hne
    rw [hs] at hsnap
    split_ifs at hsnap with hdrop
    · -- the snapshot of the handout was pending, and is in storage now
      have hown := hh.own_snapshot hdrop.1 hdrop.2
      have hsrc := source_of_nonempty hdrop.1
      by_cases hents : h.entries=[]
      · have hoff := ht.fresh h _ hp hsrc (hown.trans hsrc) hents hne
        rw [hh.storedSnap hst hents hdrop.1]
        exact hoff
      · have hoff := ht.order h hp hown
        have hlast := hh.storedEnts hst hents
        omega
    · exact ht.stable hsnap.symm hne
  · have hlast := hh.storedEnts hst hents
    omega

end Tidy

end LogSession

end RaftTesting
