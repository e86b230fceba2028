import RaftTesting.Log.View
import RaftTesting.Node.Start

namespace RaftTesting

namespace Ready

/-- Where the committed entries of a Ready follow on: its snapshot, or what has been handed
out before. -/
def base (a : Nat) (rd : Ready) : Nat := if isEmptySnap rd.snapshot then a else rd.snapshot.index

/-- The index up to which everything has been handed out with the Ready. -/
def reach (a : Nat) (rd : Ready) : Nat := rd.base a+rd.committedEntries.length

/-- The snapshots and committed entries of the Readys follow on each other from index a on:
the indices are consecutive, and a snapshot jumps ahead. -/
def InTurn : Nat → List Ready → Prop
  | _,[] => True
  | a,rd::rds => (isEmptySnap rd.snapshot=false → a<rd.snapshot.index) ∧
      Numbered (rd.base a) rd.committedEntries ∧ InTurn (rd.reach a) rds

theorem le_base {a : Nat} {rd : Ready} (h : isEmptySnap rd.snapshot=false → a<rd.snapshot.index) :
    a≤rd.base a := by
  unfold base
  split_ifs with he
  · exact le_rfl
  · exact (h (Bool.eq_false_iff.mpr he)).le

/-- The cursor of a Ready is the index it leads to, if it leads anywhere. -/
theorem reach_eq {a : Nat} {rd : Ready}
    (hsnap : isEmptySnap rd.snapshot=false → a<rd.snapshot.index)
    (hn : Numbered (rd.base a) rd.committedEntries) :
    rd.reach a=max a rd.appliedCursor ∧ (rd.appliedCursor=0 ∨ a≤rd.appliedCursor) := by
  have hbase := le_base hsnap
  unfold reach
  by_cases hnil : rd.committedEntries=[]
  · have hcursor : rd.appliedCursor=rd.snapshot.index := by
      unfold appliedCursor
      rw [hnil]
      rfl
    rw [hcursor,hnil,List.length_nil]
    unfold base at hbase ⊢
    split_ifs with he
    · have hzero : rd.snapshot.index=0 := of_decide_eq_true he
      omega
    · have hlt := hsnap (Bool.eq_false_iff.mpr he)
      omega
  · obtain ⟨e,he,-,hi⟩ := LogSession.numbered_getLast hn hnil
    have hcursor : rd.appliedCursor=e.index := by
      unfold appliedCursor
      rw [he]
    rw [hcursor,hi]
    omega

theorem inTurn_append {a : Nat} {rds : List Ready} {rd : Ready} (h : InTurn a rds)
    (hsnap : isEmptySnap rd.snapshot=false → rds.foldl reach a<rd.snapshot.index)
    (hn : Numbered (rd.base (rds.foldl reach a)) rd.committedEntries) :
    InTurn a (rds++[rd]) := by
  induction rds generalizing a with
  | nil => exact ⟨hsnap,hn,trivial⟩
  | cons rd' rds ih =>
    obtain ⟨h1,h2,h3⟩ := h
    exact ⟨h1,h2,ih h3 hsnap hn⟩

/-- Nothing is handed out twice. -/
theorem inTurn_ascending {a : Nat} {rds : List Ready} (h : InTurn a rds) :
    (∀ e ∈ rds.flatMap committedEntries, a<e.index) ∧
      (rds.flatMap committedEntries).Pairwise (fun e e' => e.index<e'.index) := by
  induction rds generalizing a with
  | nil => exact ⟨by simp,.nil⟩
  | cons rd rds ih =>
    obtain ⟨hsnap,hn,hrest⟩ := h
    obtain ⟨hlow,hasc⟩ := ih hrest
    have hbase := le_base hsnap
    have hmem : ∀ e ∈ rd.committedEntries, rd.base a<e.index ∧ e.index≤rd.reach a := by
      intro e he
      obtain ⟨k,hk⟩ := List.mem_iff_getElem?.mp he
      have hi := hn k e hk
      have hlt : k<rd.committedEntries.length := (List.getElem?_eq_some_iff.mp hk).1
      unfold reach
      omega
    have hreach : rd.base a≤rd.reach a := Nat.le_add_right _ _
    rw [List.flatMap_cons]
    refine ⟨fun e he => ?_,List.pairwise_append.mpr ⟨?_,hasc,fun e he e' he' => ?_⟩⟩
    · rcases List.mem_append.mp he with he | he
      · have := (hmem e he).1
        omega
      · have := hlow e he
        omega
    · rw [List.pairwise_iff_getElem]
      intro i j hi hj hij
      have h1 := hn i _ (List.getElem?_eq_getElem hi)
      have h2 := hn j _ (List.getElem?_eq_getElem hj)
      omega
    · exact (hmem e he).2.trans_lt (hlow e' he')

end Ready

namespace RawNode

/-- HasReady and newReady look at the same sources of change, if a commit index ahead of the
applied one means that there are entries to hand out. -/
theorem readyWithoutAccept_agrees [Raftpb] {rn : RawNode} {ents : List Entry}
    (hents : rn.raft.raftLog.nextEnts=.ok ents)
    (hnext : rn.raft.raftLog.hasNextEnts=true ↔ ents≠[]) :
    ∃ rd, rn.readyWithoutAccept=.ok rd ∧ rn.hasReady=rd.containsUpdates := by
  refine ⟨_,bind_eq_ok.mpr ⟨ents,hents,rfl⟩,?_⟩
  have hsoft : (if rn.raft.softState=rn.prevSoftSt then none else some rn.raft.softState).isSome=
      decide (rn.raft.softState≠rn.prevSoftSt) := by
    split_ifs with h <;> simp [h]
  have hhard : decide ((if rn.raft.hardState=rn.prevHardSt then {} else rn.raft.hardState)≠
      ({} : HardState))=
      (decide (rn.raft.hardState≠{}) && decide (rn.raft.hardState≠rn.prevHardSt)) := by
    split_ifs with h <;> simp [h]
  have hsnap : rn.raft.raftLog.hasPendingSnapshot=
      !isEmptySnap (rn.raft.raftLog.unstable.snapshot.getD {}) := by
    unfold RaftLog.hasPendingSnapshot
    cases rn.raft.raftLog.unstable.snapshot <;> rfl
  have hlen : ∀ {α : Type} (l : List α), decide (0<l.length)=!l.isEmpty := by
    intro α l
    cases l <;> simp
  have hread : decide (rn.raft.readStates.length≠0)=!rn.raft.readStates.isEmpty := by
    cases rn.raft.readStates <;> simp
  have hcommitted : (!ents.isEmpty)=rn.raft.raftLog.hasNextEnts := by
    rw [Bool.eq_iff_iff,hnext]
    cases ents <;> simp
  unfold hasReady Ready.containsUpdates
  dsimp only
  rw [hsoft,hhard,hsnap,hlen,hlen,hlen,hread,hcommitted]
  ac_rfl

end RawNode

namespace Session

open LogSession RaftTesting.Core

/-- Advance takes the entries of its Ready for stored only if no other snapshot has replaced
the log that they were handed out from. -/
def Owned (x : Session) : Act → Prop
  | .advance => ∀ w, x.work=some w → x.stage=.stored → x.log.Owns w.handout
  | _ => True

instance decidableOwned (x : Session) : (a : Act) → Decidable (x.Owned a)
  | .advance =>
    match hw : x.work with
    | none => .isTrue (fun w hs => by rw [hw] at hs; cases hs)
    | some w => decidable_of_iff (x.stage=.stored → x.raftLog.confirms w.handout.entries=true →
          x.raftLog.unstable.snapshot=w.handout.source)
        ⟨fun h w' hs => by rw [hw] at hs; cases hs; exact h,fun h => h w hw⟩
  | .step _ | .tick | .applyConfChange _ | .ready | .save | .append | .compact _ => .isTrue trivial

/-- The cursor that the next Advance confirms. -/
def cursor (x : Session) : Nat := x.work.elim 0 (fun w => w.ready.appliedCursor)

/-- What has been handed out so far, from index a on. -/
structure Delivered [Raftpb] (a : Nat) (x : Session) : Prop where
  sane : x.Sane
  joined : x.log.Joined
  turn : Ready.InTurn a (x.handed.map Work.ready)
  reached : (x.handed.map Work.ready).foldl Ready.reach a=max x.raftLog.applied x.cursor
  cursor : x.cursor=0 ∨ x.raftLog.applied≤x.cursor
  entries : ∀ w ∈ x.handed, ∀ e ∈ w.ready.committedEntries,
    w.origin.raftLog.entryAt e.index=some e ∧ e.index≤w.origin.raftLog.committed

section

variable [Raftpb] {x x' : Session} {a : Nat}

theorem Sane.joined {b : Act} (hx : x.Sane) (hj : x.log.Joined) (hf : x.Fits b)
    (ho : x.Owned b) (h : x.Does b x') : x'.Sane ∧ x'.log.Joined := by
  have hown : ∀ w, b=.advance → x.work=some w → x.stage=.stored → ∀ l : RaftLog,
      (l.unstable=x.raftLog.unstable ∨
        x.raftLog.unstable.snapshot=none ∧ l.unstable.snapshot=none) →
      (x.log.setLog l).Owns w.handout := by
    intro w hb hw hst l hl hyes
    subst hb
    change l.confirms w.handout.entries=true at hyes
    change l.unstable.snapshot=_
    rcases hl with hl | ⟨hnone,hl⟩
    · unfold RaftLog.confirms at hyes
      rw [hl] at hyes ⊢
      exact ho w hw hst hyes
    · rw [hl,(hx.base.hand w.handout (log_pending hw)).source_none hnone]
  obtain ⟨hs,hc⟩ := hx.does hf hown h
  exact ⟨hs,hj.changes hc⟩

/-- The entries of a Ready follow on what has been applied. -/
theorem Sane.ready_turn {rd : Ready} (hx : x.Sane) (hw : x.work=none)
    (h : x.rn.readyWithoutAccept=.ok rd) :
    (isEmptySnap rd.snapshot=false → x.raftLog.applied<rd.snapshot.index) ∧
      Numbered (rd.base x.raftLog.applied) rd.committedEntries ∧
      ∀ e ∈ rd.committedEntries, x.raftLog.entryAt e.index=some e ∧
        e.index≤x.raftLog.committed := by
  obtain ⟨ents,hn,hrd⟩ := bind_eq_ok.mp h
  have hents : rd.committedEntries=ents := by
    cases hrd
    rfl
  have hsnapshot : rd.snapshot=x.raftLog.unstable.snapshot.getD {} := by
    cases hrd
    rfl
  obtain ⟨hreads,hle,-⟩ := RaftLog.nextEnts_reads hn
  change x.raftLog.Reads (max (x.raftLog.applied+1) x.raftLog.firstIndex) ents at hreads
  change ents≠[] → max (x.raftLog.applied+1) x.raftLog.firstIndex+ents.length≤
    x.raftLog.committed+1 at hle
  have hdummy : x.raftLog.storage.dummy.index≤x.raftLog.applied := by
    have hb := hx.base.base
    rw [reach_of_handed (hx.base.idle (log_idle.mpr hw))] at hb
    exact hb
  -- the entries start behind the snapshot, or behind what has been applied
  have hstart : max (x.raftLog.applied+1) x.raftLog.firstIndex=rd.base x.raftLog.applied+1 ∧
      (isEmptySnap rd.snapshot=false → x.raftLog.applied<rd.snapshot.index) := by
    unfold Ready.base
    cases hs : x.raftLog.unstable.snapshot with
    | none =>
      rw [hs] at hsnapshot
      rw [RaftLog.firstIndex_of_stable hs,hsnapshot]
      refine ⟨?_,nofun⟩
      rw [if_pos (by rfl)]
      omega
    | some s =>
      rw [hs] at hsnapshot
      obtain ⟨h0,-,-,hlt⟩ := hx.base.snap s hs
      change x.raftLog.applied<s.index at hlt
      have hne : isEmptySnap s=false := decide_eq_false (by omega)
      have hsn : rd.snapshot=s := hsnapshot
      rw [RaftLog.firstIndex_of_snapshot hs,hsn,hne]
      refine ⟨?_,fun _ => hlt⟩
      rw [if_neg Bool.false_ne_true]
      omega
  obtain ⟨hstart,hsnap⟩ := hstart
  have hbase := Ready.le_base hsnap
  rw [hstart] at hreads hle
  have hindex : ∀ k e, ents[k]?=some e → e.index=rd.base x.raftLog.applied+1+k := by
    intro k e hk
    exact RaftLog.entryAt_index hx.base.pos hx.base.stored hx.base.unstable (hreads k e hk)
  rw [hents]
  refine ⟨hsnap,?_,?_⟩
  · intro k e hk
    have hi := hindex k e hk
    omega
  · intro e he
    obtain ⟨k,hk⟩ := List.mem_iff_getElem?.mp he
    have hi := hindex k e hk
    have hlt : k<ents.length := (List.getElem?_eq_some_iff.mp hk).1
    have hle := hle (List.ne_nil_of_mem he)
    rw [hi]
    exact ⟨hreads k e hk,by omega⟩

/-- Acts that hand nothing out and confirm nothing. -/
theorem Delivered.stays (hx : x.Delivered a) (hs : x'.Sane) (hj : x'.log.Joined)
    (hw : x'.work=x.work) (hh : x'.handed=x.handed)
    (happlied : x'.raftLog.applied=x.raftLog.applied) : x'.Delivered a := by
  have hcursor : x'.cursor=x.cursor := by
    unfold Session.cursor
    rw [hw]
  refine ⟨hs,hj,?_,?_,?_,?_⟩
  · rw [hh]
    exact hx.turn
  · rw [hh,happlied,hcursor]
    exact hx.reached
  · rw [happlied,hcursor]
    exact hx.cursor
  · rw [hh]
    exact hx.entries

theorem Delivered.does {b : Act} (hx : x.Delivered a) (hf : x.Fits b) (ho : x.Owned b)
    (h : x.Does b x') : x'.Delivered a := by
  obtain ⟨hs,hj⟩ := hx.sane.joined hx.joined hf ho h
  cases h with
  | stay => exact hx
  | step h =>
    have hm := Raft.step_moves (S := Message.Fine) (fun _ => hf) hf.stamped h
    exact hx.stays hs hj rfl rfl hm.fixed.2
  | tick h =>
    have hm := Raft.tick_moves (S := Message.Fine) h
    exact hx.stays hs hj rfl rfl hm.fixed.2
  | applyConfChange h =>
    obtain ⟨t,-,hm⟩ := Raft.applyConfChange_moves (S := Message.Fine) h
    exact hx.stays hs hj rfl rfl hm.fixed.2
  | @ready rd hw h =>
    obtain ⟨hsnap,hn,hents⟩ := hx.sane.ready_turn hw h
    obtain ⟨hreach,hcursor⟩ := Ready.reach_eq hsnap hn
    have hidle : x.cursor=0 := by
      unfold Session.cursor
      rw [hw]
      rfl
    have hat : (x.handed.map Work.ready).foldl Ready.reach a=x.raftLog.applied := by
      rw [hx.reached,hidle,Nat.max_zero]
    refine ⟨hs,hj,?_,?_,hcursor,?_⟩
    · dsimp only
      rw [List.map_append]
      refine Ready.inTurn_append hx.turn ?_ ?_
      · rw [hat]
        exact hsnap
      · rw [hat]
        exact hn
    · dsimp only
      rw [List.map_append,List.foldl_append,hat]
      exact hreach
    · intro w hwm
      rcases List.mem_append.mp hwm with hwm | hwm
      · exact hx.entries w hwm
      · rw [List.mem_singleton] at hwm
        subst hwm
        exact hents
  | save => exact hx.stays hs hj rfl rfl rfl
  | append => exact hx.stays hs hj rfl rfl rfl
  | compact => exact hx.stays hs hj rfl rfl rfl
  | @advance w rn hw hst h =>
    obtain ⟨-,-,-,happlied,-⟩ := hx.sane.advance (P := fun _ _ => True) hw hst
      (fun _ _ => trivial) h
    have hcursor : x.cursor=w.ready.appliedCursor := by
      unfold Session.cursor
      rw [hw]
      rfl
    refine ⟨hs,hj,hx.turn,?_,.inl rfl,hx.entries⟩
    change (x.handed.map Work.ready).foldl Ready.reach a=max rn.raft.raftLog.applied 0
    rw [hx.reached,hcursor,happlied,Nat.max_zero]

theorem Start.delivered (h : x.Start) : x.Delivered x.raftLog.applied := by
  obtain ⟨hs,hj⟩ := h.sane
  have hempty : x.handed=[] ∧ x.work=none := by
    cases h <;> exact ⟨rfl,rfl⟩
  obtain ⟨hh,hw⟩ := hempty
  have hcursor : x.cursor=0 := by
    unfold Session.cursor
    rw [hw]
    rfl
  refine ⟨hs,hj,?_,?_,.inl hcursor,?_⟩
  · rw [hh]
    trivial
  · rw [hh,hcursor,Nat.max_zero]
    rfl
  · rw [hh]
    exact fun w hwm => absurd hwm List.not_mem_nil

/-- The committed entries can be read whenever storage and the unstable log follow on each
other. -/
theorem Delivered.nextEnts (hx : x.Delivered a) : ∃ ents, x.raftLog.nextEnts=.ok ents := by
  obtain ⟨ents,hents,-⟩ := hx.joined.readable.nextEnts_ok hx.joined.committed
  exact ⟨ents,hents⟩

theorem Delivered.appliedTo {w : Work} (hx : x.Delivered a) (hw : x.work=some w) :
    ∃ l, x.raftLog.appliedTo w.ready.appliedCursor=.ok l := by
  have hand := hx.sane.base.hand w.handout (log_pending hw)
  have hle : w.ready.appliedCursor≤x.raftLog.committed := hand.cursor.trans hand.committed
  have hcursor := hx.cursor
  unfold Session.cursor at hcursor
  rw [hw] at hcursor
  change w.ready.appliedCursor=0 ∨ x.raftLog.applied≤w.ready.appliedCursor at hcursor
  unfold RaftLog.appliedTo
  split
  · exact ⟨_,rfl⟩
  · rename_i hne
    refine ⟨_,if_neg (not_or.mpr ⟨Nat.not_lt.mpr hle,Nat.not_lt.mpr ?_⟩)⟩
    exact hcursor.resolve_left hne

/-- In every run the committed entries are handed out once and in order. -/
theorem run_delivered {y : Session} {acts : List Act} (hx : x.Start)
    (hacts : x.Along (fun x b => x.Fits b ∧ x.Owned b) acts) (hy : x.run acts=.ok y) :
    Ready.InTurn x.raftLog.applied (y.handed.map Work.ready) ∧
      ((y.handed.map Work.ready).flatMap Ready.committedEntries).Pairwise
        (fun e e' => e.index<e'.index) ∧
      (∀ w ∈ y.handed, ∀ e ∈ w.ready.committedEntries,
        w.origin.raftLog.entryAt e.index=some e ∧ e.index≤w.origin.raftLog.committed) ∧
      (∃ ents, y.raftLog.nextEnts=.ok ents) ∧
      ∀ w, y.work=some w → ∃ l, y.raftLog.appliedTo w.ready.appliedCursor=.ok l := by
  have hd : y.Delivered x.raftLog.applied :=
    run_induct (fun _ _ _ hx hb h => hx.does hb.1 hb.2 (act_does h)) hx.delivered hacts hy
  exact ⟨hd.turn,(Ready.inTurn_ascending hd.turn).2,hd.entries,hd.nextEnts,
    fun w hw => hd.appliedTo hw⟩

/-- In every state of a run HasReady tells whether there is anything in the next Ready. -/
theorem run_hasReady {y : Session} {acts : List Act} (hx : x.Start)
    (hacts : x.Along (fun x b => x.Fits b ∧ x.Owned b) acts) (hy : x.run acts=.ok y) :
    ∃ rd, y.rn.readyWithoutAccept=.ok rd ∧ (y.rn.hasReady=true ↔ rd.containsUpdates=true) := by
  have hd : y.Delivered x.raftLog.applied :=
    run_induct (fun _ _ _ hx hb h => hx.does hb.1 hb.2 (act_does h)) hx.delivered hacts hy
  obtain ⟨ents,hents,hnext⟩ := hd.joined.readable.nextEnts_ok hd.joined.committed
  obtain ⟨rd,hrd,heq⟩ := RawNode.readyWithoutAccept_agrees hents hnext
  exact ⟨rd,hrd,by rw [heq]⟩

end

section

local instance deliveryWire : Raftpb := Wire.small

/-- One of three voters, with nothing in its log yet. -/
def memberConfig : Config where
  id := 3
  electionTick := 10
  heartbeatTick := 1
  storage := ⟨{},{ confState := { voters := [1,2,3] } },[default],default_ne_nil⟩
  maxInflightMsgs := 256

def blank (term index : Nat) : Entry := { (default : Entry) with term := term, index := index }

def member : Except Panic Session := do
  let rn ← RawNode.newRawNode memberConfig []
  .ok { rn := rn }

/-- While the entries of a first leader are being saved, a second leader replaces them by its
own, a third one sends a snapshot of what the first had committed, and then the last of the
entries again. -/
def replaced : List Act :=
  [.step {
    type := .msgApp
    toId := 3
    fromId := 1
    term := 2
    entries := [blank 2 1,blank 2 2,blank 2 3] },
  .ready,
  .step { type := .msgApp, toId := 3, fromId := 2, term := 3, entries := [blank 3 1] },
  .step {
    type := .msgSnap
    toId := 3
    fromId := 1
    term := 4
    snapshot := { confState := { voters := [1,2,3] }, index := 2, term := 2 } },
  .step {
    type := .msgApp
    toId := 3
    fromId := 1
    term := 4
    index := 2
    logTerm := 2
    entries := [blank 2 3]
    commit := 3 },
  .save,.append,.advance]

theorem member_start {x : Session} (h : member=.ok x) : x.Start := by
  obtain ⟨rn,hrn,h⟩ := bind_eq_ok.mp h
  cases h
  exact .fresh ⟨by decide,by decide⟩ hrn

/-- Advance takes entry 3, which lies behind the snapshot, for the one that has been saved,
and drops it; it is committed and cannot be read any more. -/
theorem run_drops_replaced : ∃ x y, member=.ok x ∧ x.Start ∧ x.Along Fits replaced ∧
    x.run replaced=.ok y ∧ y.raftLog.committed=3 ∧ y.raftLog.lastIndex=2 ∧
    y.raftLog.nextEnts=.error .sliceOutOfBound :=
  ⟨_,_,rfl,member_start rfl,by decide +kernel,rfl,by decide +kernel,by decide +kernel,
    by decide +kernel⟩

/-- HasReady still promises the committed entry that cannot be read. -/
theorem hasReady_replaced : ∃ x y, member=.ok x ∧ x.Start ∧ x.Along Fits replaced ∧
    x.run replaced=.ok y ∧ y.rn.hasReady=true ∧
    y.rn.readyWithoutAccept=.error .sliceOutOfBound :=
  ⟨_,_,rfl,member_start rfl,by decide +kernel,rfl,by decide +kernel,by decide +kernel⟩

/-- The same node, with the entries saved before another leader comes. -/
def followed : List Act :=
  [.step {
    type := .msgApp
    toId := 3
    fromId := 1
    term := 2
    entries := [blank 2 1,blank 2 2,blank 2 3]
    commit := 2 },
  .ready,.save,.append,.advance,
  .step { type := .msgHeartbeat, toId := 3, fromId := 1, term := 2, commit := 3 },
  .ready]

theorem run_delivered_followed : ∃ x y, member=.ok x ∧ x.run followed=.ok y ∧
    Ready.InTurn 0 (y.handed.map Work.ready) ∧
    (y.handed.map (fun w => w.ready.committedEntries))=[[blank 2 1],[blank 2 2]] ∧
    (∃ ents, y.raftLog.nextEnts=.ok ents) ∧
    ∀ w, y.work=some w → ∃ l, y.raftLog.appliedTo w.ready.appliedCursor=.ok l := by
  obtain ⟨x,y,hx,hacts,hy,happlied,hhanded⟩ : ∃ x y, member=.ok x ∧
      x.Along (fun x b => x.Fits b ∧ x.Owned b) followed ∧ x.run followed=.ok y ∧
      x.raftLog.applied=0 ∧
      (y.handed.map (fun w => w.ready.committedEntries))=[[blank 2 1],[blank 2 2]] :=
    ⟨_,_,rfl,by decide +kernel,rfl,by decide +kernel,by decide +kernel⟩
  obtain ⟨hturn,-,-,hnext,hto⟩ := run_delivered (member_start hx) hacts hy
  rw [happlied] at hturn
  exact ⟨x,y,hx,hy,hturn,hhanded,hnext,hto⟩

theorem run_hasReady_followed : ∃ x y, member=.ok x ∧ x.run followed=.ok y ∧
    ∃ rd, y.rn.readyWithoutAccept=.ok rd ∧ (y.rn.hasReady=true ↔ rd.containsUpdates=true) := by
  obtain ⟨x,y,hx,hacts,hy⟩ : ∃ x y, member=.ok x ∧
      x.Along (fun x b => x.Fits b ∧ x.Owned b) followed ∧ x.run followed=.ok y :=
    ⟨_,_,rfl,by decide +kernel,rfl⟩
  exact ⟨x,y,hx,hy,run_hasReady (member_start hx) hacts hy⟩

end

end Session

end RaftTesting
