import Mathlib.Data.List.Nodup
import RaftTesting.Protocol.ReadOnly

namespace RaftTesting

/-- The calls that a leader makes on its readOnly. -/
inductive ReadOp where
  | addRequest (index : Nat) (m : Message)
  | recvAck (id : Nat) (context : Bytes)
  | advance (m : Message)

/-- The commit index that comes with a request. -/
def ReadOp.index? : ReadOp → Option Nat
  | .addRequest index _ => some index
  | _ => none

/-- The request and the commit index it came with. -/
def ReadIndexStatus.asked (rs : ReadIndexStatus) : Message × Nat := (rs.req,rs.index)

/-- A readOnly with the requests it has taken on and the ones it has released so far, both
in the order in which that happened. -/
structure ReadRun where
  ro : ReadOnly
  accepted : List (Message × Nat) := []
  released : List ReadIndexStatus := []

namespace ReadRun

/-- addRequest takes a request on unless one with the same context is pending. -/
def accepts (ro : ReadOnly) (m : Message) : Bool :=
  match m.firstData with
  | .ok s => (ro.pendingReadIndex.lookup s).isNone
  | .error _ => false

def act (x : ReadRun) : ReadOp → Except Panic ReadRun
  | .addRequest index m => do
    let ro ← x.ro.addRequest index m
    .ok { x with
      ro := ro
      accepted := if accepts x.ro m then x.accepted++[(m,index)] else x.accepted }
  | .recvAck id context => .ok { x with ro := (x.ro.recvAck id context).1 }
  | .advance m => do
    let (ro,rss) ← x.ro.advance m
    .ok { x with ro := ro, released := x.released++rss }

def run (x : ReadRun) : List ReadOp → Except Panic ReadRun
  | [] => .ok x
  | op::ops => do
    let x ← x.act op
    x.run ops

end ReadRun

namespace ReadOnly

/-- The queue lists the keys of the map, and each request is filed under its own context. -/
structure Consistent (ro : ReadOnly) : Prop where
  queue : ro.pendingReadIndex.map Prod.fst=ro.readIndexQueue
  nodup : ro.readIndexQueue.Nodup
  keyed : ∀ p ∈ ro.pendingReadIndex, p.2.req.firstData=.ok p.1

theorem lookup_of_mem {α : Type} {l : List (Bytes × α)} (hl : (l.map Prod.fst).Nodup)
    {p : Bytes × α} (hp : p ∈ l) : l.lookup p.1=some p.2 := by
  induction l with
  | nil => simp at hp
  | cons q l ih =>
    obtain ⟨k,v⟩ := q
    rw [List.map_cons,List.nodup_cons] at hl
    rcases List.mem_cons.mp hp with rfl | hmem
    · simp
    · have hne : p.1≠k := by
        intro he
        exact hl.1 (List.mem_map.mpr ⟨p,hmem,he⟩)
      have hfalse : (p.1==k)=false := by simpa using hne
      rw [List.lookup_cons,hfalse]
      exact ih hl.2 hmem

theorem lookup_isSome_iff {α : Type} (l : List (Bytes × α)) (k : Bytes) :
    (l.lookup k).isSome ↔ k ∈ l.map Prod.fst := by
  induction l with
  | nil => simp
  | cons q l ih =>
    obtain ⟨k',v⟩ := q
    by_cases hk : k=k'
    · simp [hk]
    · have hfalse : (k==k')=false := by simpa using hk
      simp only [List.lookup_cons,hfalse,ih,List.map_cons,List.mem_cons,hk,false_or]

section

variable {ro ro' : ReadOnly} {ctx : Bytes}

theorem Consistent.lookup_eq (h : ro.Consistent) {p : Bytes × ReadIndexStatus}
    (hp : p ∈ ro.pendingReadIndex) : ro.pendingReadIndex.lookup p.1=some p.2 :=
  lookup_of_mem (h.queue.symm ▸ h.nodup) hp

/-- The loop of advance over a queue that does not contain the context. -/
theorem dequeue_absent {ps : List (Bytes × ReadIndexStatus)}
    (hps : ∀ p ∈ ps, ro.pendingReadIndex.lookup p.1=some p.2) (hctx : ctx ∉ ps.map Prod.fst) :
    ro.dequeue ctx (ps.map Prod.fst)=.ok none := by
  induction ps with
  | nil => rfl
  | cons p ps ih =>
    rw [List.map_cons,List.mem_cons,not_or] at hctx
    simp only [List.map_cons,dequeue]
    rw [hps p List.mem_cons_self]
    dsimp only
    rw [if_neg (Ne.symm hctx.1),ih (fun q hq => hps q (List.mem_cons_of_mem _ hq)) hctx.2]
    rfl

/-- The loop of advance stops at the context and has collected all up to it. -/
theorem dequeue_found {ps qs : List (Bytes × ReadIndexStatus)} {p : Bytes × ReadIndexStatus}
    (hps : ∀ q ∈ ps++[p], ro.pendingReadIndex.lookup q.1=some q.2) (hctx : p.1 ∉ ps.map Prod.fst) :
    ro.dequeue p.1 ((ps++p::qs).map Prod.fst)=.ok (some ((ps++[p]).map Prod.snd)) := by
  induction ps with
  | nil =>
    simp only [List.nil_append,List.map_cons,dequeue]
    rw [hps p (by simp)]
    simp
  | cons q ps ih =>
    rw [List.map_cons,List.mem_cons,not_or] at hctx
    simp only [List.cons_append,List.map_cons,dequeue]
    rw [hps q (by simp)]
    dsimp only
    rw [if_neg (Ne.symm hctx.1),
      ih (fun r hr => hps r (List.mem_cons_of_mem _ hr)) hctx.2]
    rfl

/-- Deleting by the context of the stored requests removes the keys that were dequeued. -/
theorem deleteAll_eq {ds : List (Bytes × ReadIndexStatus)}
    (hds : ∀ d ∈ ds, d.2.req.firstData=.ok d.1) (pending : List (Bytes × ReadIndexStatus)) :
    deleteAll pending (ds.map Prod.snd)=.ok (pending.filter (fun p => p.1 ∉ ds.map Prod.fst)) := by
  induction ds generalizing pending with
  | nil => simp [deleteAll]; rfl
  | cons d ds ih =>
    have hrest := ih (fun e he => hds e (List.mem_cons_of_mem _ he))
      (pending.filter (fun p => p.1≠d.1))
    unfold deleteAll at hrest ⊢
    rw [List.map_cons,List.foldlM_cons,hds d List.mem_cons_self]
    change List.foldlM _ (pending.filter (fun p => p.1≠d.1)) _=_
    rw [hrest,List.filter_filter]
    congr 1
    apply List.filter_congr
    intro p _
    rw [List.map_cons,← Bool.decide_and,decide_eq_decide,List.mem_cons,not_or]
    exact and_comm

theorem filter_dequeued {ds as : List (Bytes × ReadIndexStatus)}
    (hn : ((ds++as).map Prod.fst).Nodup) :
    (ds++as).filter (fun p => p.1 ∉ ds.map Prod.fst)=as := by
  rw [List.map_append,List.nodup_append] at hn
  rw [List.filter_append]
  have hds : ds.filter (fun p => p.1 ∉ ds.map Prod.fst)=[] := by
    apply List.filter_eq_nil_iff.mpr
    intro p hp
    simpa using ⟨p.2,hp⟩
  have has : as.filter (fun p => p.1 ∉ ds.map Prod.fst)=as := by
    apply List.filter_eq_self.mpr
    intro p hp
    rw [decide_eq_true_eq]
    intro hmem
    exact hn.2.2 p.1 hmem p.1 (List.mem_map_of_mem hp) rfl
  rw [hds,has,List.nil_append]

/-- advance with a context that is not pending does nothing. -/
theorem Consistent.advance_absent (h : ro.Consistent) {m : Message}
    (hm : m.context ∉ ro.readIndexQueue) : ro.advance m=.ok (ro,[]) := by
  unfold advance
  rw [← h.queue] at hm ⊢
  rw [dequeue_absent (fun p hp => h.lookup_eq hp) hm]
  rfl

/-- advance releases the requests up to the context and keeps those behind it. -/
theorem Consistent.advance_found (h : ro.Consistent) {m : Message}
    {ps qs : List (Bytes × ReadIndexStatus)} {p : Bytes × ReadIndexStatus}
    (hps : ro.pendingReadIndex=ps++p::qs) (hm : m.context=p.1) :
    ro.advance m=.ok (⟨ro.option,qs,qs.map Prod.fst⟩,(ps++[p]).map Prod.snd) := by
  have hsplit : ro.pendingReadIndex=(ps++[p])++qs := by simpa using hps
  have hnodup : (((ps++[p])++qs).map Prod.fst).Nodup := by
    rw [← hsplit,h.queue]
    exact h.nodup
  have hfront : p.1 ∉ ps.map Prod.fst := by
    rw [List.map_append,List.nodup_append,List.map_append,List.nodup_append] at hnodup
    intro hmem
    exact hnodup.1.2.2 p.1 hmem p.1 (by simp) rfl
  have hlook : ∀ q ∈ ps++[p], ro.pendingReadIndex.lookup q.1=some q.2 := by
    intro q hq
    apply h.lookup_eq
    rw [hsplit]
    exact List.mem_append_left _ hq
  have hkeyed : ∀ q ∈ ps++[p], q.2.req.firstData=.ok q.1 := by
    intro q hq
    apply h.keyed
    rw [hsplit]
    exact List.mem_append_left _ hq
  have hdel := deleteAll_eq hkeyed ro.pendingReadIndex
  rw [hsplit,filter_dequeued hnodup] at hdel
  unfold advance
  rw [hm,← h.queue,hps,dequeue_found hlook hfront]
  change (deleteAll _ _ >>= _)=_
  rw [← hps,hsplit,hdel]
  change Except.ok _=_
  congr 3
  rw [List.length_map,List.map_append,List.drop_left' (by simp)]

theorem Consistent.recvAck (h : ro.Consistent) (id : Nat) (context : Bytes) :
    (ro.recvAck id context).1.Consistent ∧ (ro.recvAck id context).1.pendingReadIndex.map
      (fun p => p.2.asked)=ro.pendingReadIndex.map (fun p => p.2.asked) := by
  unfold ReadOnly.recvAck
  split
  · exact ⟨h,rfl⟩
  · rename_i rs hrs
    dsimp only
    refine ⟨⟨?_,h.nodup,?_⟩,?_⟩
    · rw [← h.queue,List.map_map]
      rfl
    · intro p hp
      obtain ⟨q,hq,rfl⟩ := List.mem_map.mp hp
      dsimp only
      split_ifs <;> exact h.keyed q hq
    · rw [List.map_map]
      apply List.map_congr_left
      intro p _
      dsimp only [Function.comp_apply]
      split_ifs <;> rfl

theorem Consistent.addRequest (h : ro.Consistent) (index : Nat) {m : Message}
    (hm : m.entries≠[]) :
    ∃ ro', ro.addRequest index m=.ok ro' ∧ ro'.Consistent ∧
      ro'.pendingReadIndex.map (fun p => p.2.asked)=ro.pendingReadIndex.map (fun p => p.2.asked)++
        if ReadRun.accepts ro m then [(m,index)] else [] := by
  obtain ⟨s,hs⟩ : ∃ s, m.firstData=.ok s := by
    unfold Message.firstData
    cases he : m.entries with
    | nil => exact absurd he hm
    | cons e es => exact ⟨e.data,rfl⟩
  unfold ReadRun.accepts
  rw [hs]
  cases hl : ro.pendingReadIndex.lookup s with
  | some rs =>
    refine ⟨ro,?_,h,by simp [hl]⟩
    simp only [ReadOnly.addRequest,hs,bind,Except.bind,hl]
  | none =>
    have hnew : s ∉ ro.readIndexQueue := by
      rw [← h.queue,← lookup_isSome_iff,hl]
      simp
    refine ⟨⟨ro.option,ro.pendingReadIndex++[(s,⟨m,index,∅⟩)],ro.readIndexQueue++[s]⟩,?_,
      ⟨?_,?_,?_⟩,?_⟩
    · simp only [ReadOnly.addRequest,hs,bind,Except.bind,hl]
    · simp [h.queue]
    · simpa [List.nodup_append] using ⟨h.nodup,fun a ha he => hnew (he ▸ ha)⟩
    · intro p hp
      rcases List.mem_append.mp hp with hp | hp
      · exact h.keyed p hp
      · rw [List.mem_singleton.mp hp]
        exact hs
    · simp [ReadIndexStatus.asked,hl]

end

end ReadOnly

namespace ReadRun

/-- What was accepted has been released, in that order, or is still in the queue. -/
structure Ordered (x : ReadRun) : Prop where
  ro : x.ro.Consistent
  accepted : x.accepted=x.released.map ReadIndexStatus.asked++
    x.ro.pendingReadIndex.map (fun p => p.2.asked)

/-- A request without an entry has no context. -/
def Fits : ReadOp → Prop
  | .addRequest _ m => m.entries≠[]
  | _ => True

theorem Ordered.act {x : ReadRun} (h : x.Ordered) {op : ReadOp} (hop : Fits op) :
    ∃ y, x.act op=.ok y ∧ y.Ordered ∧
      ∃ added, y.accepted=x.accepted++added ∧ (added.map Prod.snd).Sublist op.index?.toList := by
  cases op with
  | addRequest index m =>
    obtain ⟨ro,hro,hc,hasked⟩ := h.ro.addRequest index hop
    have hact : x.act (.addRequest index m)=.ok { x with
        ro := ro
        accepted := if accepts x.ro m then x.accepted++[(m,index)] else x.accepted } := by
      simp only [ReadRun.act,hro,bind,Except.bind]
    refine ⟨_,hact,⟨hc,?_⟩,if accepts x.ro m then [(m,index)] else [],?_,?_⟩
    · dsimp only
      rw [hasked,h.accepted]
      split_ifs <;> simp
    · dsimp only
      split_ifs <;> simp
    · split_ifs
      · exact List.Sublist.refl _
      · exact List.nil_sublist _
  | recvAck id context =>
    obtain ⟨hc,hasked⟩ := h.ro.recvAck id context
    refine ⟨_,rfl,⟨hc,?_⟩,[],(List.append_nil _).symm,List.nil_sublist _⟩
    dsimp only
    rw [hasked]
    exact h.accepted
  | advance m =>
    by_cases hm : m.context ∈ x.ro.readIndexQueue
    · rw [← h.ro.queue] at hm
      obtain ⟨p,hp,hpm⟩ := List.mem_map.mp hm
      obtain ⟨ps,qs,hps⟩ := List.append_of_mem hp
      have hadv := h.ro.advance_found hps hpm.symm
      have hnodup := h.ro.nodup
      rw [← h.ro.queue,hps,List.map_append,List.nodup_append] at hnodup
      have hact : x.act (.advance m)=.ok { x with
          ro := ⟨x.ro.option,qs,qs.map Prod.fst⟩
          released := x.released++(ps++[p]).map Prod.snd } := by
        simp only [ReadRun.act,hadv,bind,Except.bind]
      refine ⟨_,hact,⟨⟨rfl,?_,?_⟩,?_⟩,[],(List.append_nil _).symm,List.nil_sublist _⟩
      · exact (List.nodup_cons.mp hnodup.2.1).2
      · intro q hq
        apply h.ro.keyed
        rw [hps]
        exact List.mem_append_right _ (List.mem_cons_of_mem _ hq)
      · dsimp only
        rw [h.accepted,hps]
        simp [Function.comp_def]
    · have hact : x.act (.advance m)=.ok x := by
        simp only [ReadRun.act,h.ro.advance_absent hm,bind,Except.bind,List.append_nil]
      exact ⟨x,hact,h,[],(List.append_nil _).symm,List.nil_sublist _⟩

theorem Ordered.run {x : ReadRun} (h : x.Ordered) {ops : List ReadOp} (hops : ∀ op ∈ ops, Fits op) :
    ∃ y, x.run ops=.ok y ∧ y.Ordered ∧
      ∃ added, y.accepted=x.accepted++added ∧
        (added.map Prod.snd).Sublist (ops.filterMap ReadOp.index?) := by
  induction ops generalizing x with
  | nil => exact ⟨x,rfl,h,[],(List.append_nil _).symm,List.nil_sublist _⟩
  | cons op ops ih =>
    obtain ⟨y,hy,hord,added,hacc,hsub⟩ := h.act (hops op List.mem_cons_self)
    obtain ⟨z,hz,hord',added',hacc',hsub'⟩ := ih hord (fun o ho => hops o (List.mem_cons_of_mem _ ho))
    refine ⟨z,?_,hord',added++added',?_,?_⟩
    · simp only [ReadRun.run,hy]
      exact hz
    · rw [hacc',hacc,List.append_assoc]
    · have hcons : (op::ops).filterMap ReadOp.index?=op.index?.toList++ops.filterMap ReadOp.index? := by
        cases op <;> rfl
      rw [hcons,List.map_append]
      exact hsub.append hsub'

/-- However the readOnly is used, queue and map agree, advance releases the front of the queue
up to its context, and the requests leave in the order they came. -/
theorem run_consistent (option : ReadOnlyOption) (ops : List ReadOp) (hops : ∀ op ∈ ops, Fits op) :
    ∃ x : ReadRun, ReadRun.run { ro := .newReadOnly option } ops=.ok x ∧
      x.ro.readIndexQueue.Nodup ∧
      (∀ ctx, ctx ∈ x.ro.readIndexQueue ↔ (x.ro.pendingReadIndex.lookup ctx).isSome) ∧
      (∀ m : Message, m.context ∉ x.ro.readIndexQueue → x.ro.advance m=.ok (x.ro,[])) ∧
      (∀ (m : Message) (front back : List Bytes), x.ro.readIndexQueue=front++m.context::back →
        ∃ ro' rss, x.ro.advance m=.ok (ro',rss) ∧ ro'.readIndexQueue=back ∧
          rss.map some=(front++[m.context]).map (x.ro.pendingReadIndex.lookup ·) ∧
          ∀ ctx, ro'.pendingReadIndex.lookup ctx=
            if ctx ∈ back then x.ro.pendingReadIndex.lookup ctx else none) ∧
      x.accepted=x.released.map ReadIndexStatus.asked++
        (x.ro.readIndexQueue.filterMap (x.ro.pendingReadIndex.lookup ·)).map ReadIndexStatus.asked ∧
      ((ops.filterMap ReadOp.index?).Pairwise (· ≤ ·) →
        (x.released.map (·.index)).Pairwise (· ≤ ·)) := by
  have hstart : ReadRun.Ordered { ro := .newReadOnly option } :=
    ⟨⟨rfl,List.nodup_nil,fun p hp => by cases hp⟩,rfl⟩
  obtain ⟨x,hx,hord,added,hacc,hsub⟩ := hstart.run hops
  have hc := hord.ro
  refine ⟨x,hx,hc.nodup,?_,fun m hm => hc.advance_absent hm,?_,?_,?_⟩
  · intro ctx
    rw [ReadOnly.lookup_isSome_iff,hc.queue]
  · intro m front back hq
    rw [← hc.queue] at hq
    obtain ⟨ps,rest,hps,hfront,hrest⟩ := List.map_eq_append_iff.mp hq
    obtain ⟨p,qs,rfl,hp,hback⟩ := List.map_eq_cons_iff.mp hrest
    have hnodup := hc.nodup
    rw [← hc.queue,hq,List.nodup_append,List.nodup_cons] at hnodup
    refine ⟨_,_,hc.advance_found hps hp.symm,hback,?_,?_⟩
    · rw [← hfront,← hp,← List.map_singleton,← List.map_append,List.map_map,List.map_map]
      apply List.map_congr_left
      intro q hmem
      rw [Function.comp_apply,Function.comp_apply,hc.lookup_eq]
      rw [hps,← List.singleton_append,← List.append_assoc]
      exact List.mem_append_left _ hmem
    · intro ctx
      dsimp only
      split_ifs with hctx
      · rw [← hback] at hctx
        obtain ⟨q,hmem,rfl⟩ := List.mem_map.mp hctx
        rw [ReadOnly.lookup_of_mem (hback.symm ▸ hnodup.2.1.2) hmem,hc.lookup_eq]
        rw [hps]
        exact List.mem_append_right _ (List.mem_cons_of_mem _ hmem)
      · rw [← Option.not_isSome_iff_eq_none,ReadOnly.lookup_isSome_iff,hback]
        exact hctx
  · rw [hord.accepted,← hc.queue,List.filterMap_map]
    congr 1
    have hall : x.ro.pendingReadIndex.filterMap ((x.ro.pendingReadIndex.lookup ·) ∘ Prod.fst)=
        x.ro.pendingReadIndex.map Prod.snd := by
      rw [← List.filterMap_eq_map]
      apply List.filterMap_congr
      intro p hp
      exact hc.lookup_eq hp
    rw [hall,List.map_map]
    rfl
  · intro hsorted
    have hfirst : (x.released.map (·.index)).Sublist (ops.filterMap ReadOp.index?) := by
      refine List.Sublist.trans ?_ hsub
      have haccepted : added=x.released.map ReadIndexStatus.asked++
          x.ro.pendingReadIndex.map (fun p => p.2.asked) := by
        rw [← hord.accepted,hacc]
        rfl
      rw [haccepted,List.map_append,List.map_map]
      exact List.sublist_append_left _ _
    exact hsorted.sublist hfirst

/-- Two requests, the first one asked twice, and the second one confirmed. -/
theorem run_consistent_two :
    let ask := fun ctx : Bytes => ({ type := .msgReadIndex, entries := [⟨0,0,.entryNormal,ctx⟩] } :
      Message)
    let ops := [ReadOp.addRequest 3 (ask [1]),.addRequest 4 (ask [1]),.recvAck 2 [1],
      .addRequest 5 (ask [2]),.advance { type := .msgHeartbeatResp, context := [2] }]
    ∃ x : ReadRun, ReadRun.run { ro := .newReadOnly .readOnlySafe } ops=.ok x ∧
      (x.released.map (·.index)).Pairwise (· ≤ ·) := by
  intro ask ops
  have hops : ∀ op ∈ ops, Fits op := by
    intro op hop
    simp only [ops,List.mem_cons,List.not_mem_nil,or_false] at hop
    rcases hop with rfl | rfl | rfl | rfl | rfl <;> simp [Fits,ask]
  obtain ⟨x,hx,-,-,-,-,-,hsorted⟩ := run_consistent .readOnlySafe ops hops
  exact ⟨x,hx,hsorted (by decide)⟩

end ReadRun

end RaftTesting
