import Mathlib.Data.List.TakeWhile
import RaftTesting.Protocol.ReadQueue

namespace RaftTesting.ReadOnly

/-- The pending requests from the context on. -/
def since (ro : ReadOnly) (ctx : Bytes) : List (Bytes × ReadIndexStatus) :=
  ro.pendingReadIndex.dropWhile (fun p => p.1≠ctx)

/-- What is known while a request waits: C of its context and of those behind it, V of the nodes
that have acknowledged one of them, and K of the index of the request. -/
structure Waits (ctx : Bytes) (C : Bytes → Prop) (V K : Nat → Prop) (ro : ReadOnly) : Prop
    extends Consistent ro where
  behind : ∀ q ∈ ro.since ctx, C q.1 ∧ ∀ v, q.2.acks.get? v=some true → V v
  index : ∀ q ∈ ro.pendingReadIndex, q.1=ctx → K q.2.index

variable {ctx x : Bytes} {C : Bytes → Prop} {V K : Nat → Prop} {ro ro' : ReadOnly} {m : Message}

theorem mem_of_mem_since {q : Bytes × ReadIndexStatus} (h : q ∈ ro.since ctx) :
    q ∈ ro.pendingReadIndex := (List.dropWhile_sublist _).subset h

theorem since_eq_nil (h : ro.Consistent) (hctx : ctx ∉ ro.readIndexQueue) : ro.since ctx=[] := by
  refine List.dropWhile_eq_nil_iff.mpr (fun p hp => ?_)
  rw [← h.queue] at hctx
  simpa using fun he => hctx (List.mem_map.mpr ⟨p,hp,he⟩)

/-- Nothing waits in a new readOnly. -/
theorem waits_new (option : ReadOnlyOption) : (newReadOnly option).Waits ctx C V K where
  queue := rfl
  nodup := List.nodup_nil
  keyed := fun _ hp => by cases hp
  behind := fun _ hq => by cases hq
  index := fun _ hq => by cases hq

theorem Waits.addRequest {index : Nat} (h : ro.Waits ctx C V K) (hm : m.firstData=.ok x)
    (hx : x ∈ ro.readIndexQueue ∨ C x) (hK : x=ctx → K index)
    (ha : ro.addRequest index m=.ok ro') : ro'.Waits ctx C V K := by
  have hne : m.entries≠[] := by
    intro hnil
    simp [Message.firstData,hnil] at hm
  obtain ⟨ro1,ha1,hc,-⟩ := h.toConsistent.addRequest index hne
  cases ha.symm.trans ha1
  simp only [ReadOnly.addRequest,hm,bind,Except.bind] at ha
  cases hl : ro.pendingReadIndex.lookup x with
  | some rs =>
    rw [hl] at ha
    cases ha
    exact h
  | none =>
    rw [hl] at ha
    cases ha
    have hnew : x ∉ ro.readIndexQueue := by
      rw [← h.queue,← lookup_isSome_iff,hl]
      exact Bool.false_ne_true
    refine ⟨hc,fun q hq => ?_,fun q hq hqx => ?_⟩
    · have hmem : q ∈ ro.since ctx ∨ q=(x,⟨m,index,∅⟩) := by
        unfold since at hq ⊢
        rw [List.dropWhile_append] at hq
        split_ifs at hq
        · exact .inr (List.mem_singleton.mp ((List.dropWhile_sublist _).subset hq))
        · exact (List.mem_append.mp hq).imp_right List.mem_singleton.mp
      rcases hmem with hmem | rfl
      · exact h.behind q hmem
      · exact ⟨hx.resolve_left hnew,fun v hv => by simp at hv⟩
    · rcases List.mem_append.mp hq with hq | hq
      · exact h.index q hq hqx
      · rw [List.mem_singleton.mp hq] at hqx ⊢
        exact hK hqx

theorem recvAck_pending (ro : ReadOnly) (id : Nat) (x : Bytes) :
    ∃ f : Bytes × ReadIndexStatus → ReadIndexStatus,
      (ro.recvAck id x).1.pendingReadIndex=ro.pendingReadIndex.map (fun p => (p.1,f p)) ∧
      ∀ p ∈ ro.pendingReadIndex, (f p).index=p.2.index ∧ (ro.Consistent → ∀ v,
        (f p).acks.get? v=some true → p.2.acks.get? v=some true ∨ p.1=x ∧ v=id) := by
  unfold recvAck
  split
  · exact ⟨Prod.snd,by simp,fun p _ => ⟨rfl,fun _ v hv => .inl hv⟩⟩
  · rename_i rs hrs
    refine ⟨_,rfl,fun p hp => ⟨by split_ifs <;> rfl,fun hc v hv => ?_⟩⟩
    split_ifs at hv with hpx
    · have hsame : rs=p.2 := Option.some.inj (hrs.symm.trans (hpx ▸ hc.lookup_eq hp))
      rw [hsame,SortedMap.get?_insert] at hv
      split_ifs at hv with hvi
      · exact .inr ⟨hpx,hvi⟩
      · exact .inl hv
    · exact .inl hv

theorem recvAck_queue (ro : ReadOnly) (id : Nat) (x : Bytes) :
    (ro.recvAck id x).1.readIndexQueue=ro.readIndexQueue := by
  unfold recvAck
  split <;> rfl

theorem Waits.recvAck (h : ro.Waits ctx C V K) (id : Nat) (hV : C x → V id) :
    (ro.recvAck id x).1.Waits ctx C V K := by
  obtain ⟨f,hf,hspec⟩ := recvAck_pending ro id x
  refine ⟨(h.toConsistent.recvAck id x).1,fun q hq => ?_,fun q hq hqx => ?_⟩
  · unfold since at hq
    rw [hf,List.dropWhile_map] at hq
    obtain ⟨p,hp,rfl⟩ := List.mem_map.mp hq
    have hp : p ∈ ro.since ctx := hp
    obtain ⟨hC,hold⟩ := h.behind p hp
    refine ⟨hC,fun v hv => ?_⟩
    rcases (hspec p (mem_of_mem_since hp)).2 h.toConsistent v hv with hv | ⟨hpx,rfl⟩
    · exact hold v hv
    · exact hV (hpx ▸ hC)
  · rw [hf] at hq
    obtain ⟨p,hp,rfl⟩ := List.mem_map.mp hq
    dsimp only at hqx ⊢
    rw [(hspec p hp).1]
    exact h.index p hp hqx

/-- The request that advance stops at waits with the one it has released before. -/
theorem mem_since {ps qs : List (Bytes × ReadIndexStatus)} {p q : Bytes × ReadIndexStatus}
    (hro : ro.pendingReadIndex=ps++p::qs) (hq : q ∈ ps++[p]) : p ∈ ro.since q.1 := by
  unfold since
  rw [hro,List.dropWhile_append]
  split_ifs with hnil
  · rcases List.mem_append.mp hq with hq | hq
    · have hne := List.dropWhile_eq_nil_iff.mp (List.isEmpty_iff.mp hnil) q hq
      simp at hne
    · rw [List.mem_singleton.mp hq,List.dropWhile_cons_of_neg (by simp)]
      exact List.mem_cons_self
  · exact List.mem_append_right _ List.mem_cons_self

theorem mem_since_append {ps qs : List (Bytes × ReadIndexStatus)} {q : Bytes × ReadIndexStatus}
    (hro : ro.pendingReadIndex=ps++qs) (hq : q ∈ qs.dropWhile (fun p => p.1≠ctx)) :
    q ∈ ro.since ctx := by
  unfold since
  rw [hro,List.dropWhile_append]
  split_ifs
  · exact hq
  · exact List.mem_append_right _ ((List.dropWhile_sublist _).subset hq)

/-- When the request is released, the nodes that have acknowledged the one that advance stops
at are known, and so is its index. -/
theorem Waits.advance (h : ro.Waits ctx C V K) {rss : List ReadIndexStatus}
    (ha : ro.advance m=.ok (ro',rss)) : ro'.Waits ctx C V K ∧
      ∀ rs ∈ rss, rs.req.firstData=.ok ctx → K rs.index ∧
        ∀ v, (ro.acksOf m.context).get? v=some true → V v := by
  by_cases hm : m.context ∈ ro.readIndexQueue
  · rw [← h.queue] at hm
    obtain ⟨p,hp,hpm⟩ := List.mem_map.mp hm
    obtain ⟨ps,qs,hps⟩ := List.append_of_mem hp
    cases ha.symm.trans (h.toConsistent.advance_found hps hpm.symm)
    have hnodup := h.nodup
    rw [← h.queue,hps,List.map_append,List.nodup_append] at hnodup
    have hsub : ∀ q ∈ qs, q ∈ ro.pendingReadIndex := by
      intro q hq
      rw [hps]
      exact List.mem_append_right _ (List.mem_cons_of_mem _ hq)
    have hsplit : ro.pendingReadIndex=(ps++[p])++qs := by simpa using hps
    refine ⟨⟨⟨rfl,(List.nodup_cons.mp hnodup.2.1).2,fun q hq => h.keyed q (hsub q hq)⟩,
      fun q hq => h.behind q (mem_since_append hsplit hq),fun q hq => h.index q (hsub q hq)⟩,?_⟩
    intro rs hrs hctx
    obtain ⟨q,hq,rfl⟩ := List.mem_map.mp hrs
    have hqmem : q ∈ ro.pendingReadIndex := hsplit ▸ List.mem_append_left qs hq
    have hqctx : q.1=ctx := Except.ok.inj ((h.keyed q hqmem).symm.trans hctx)
    refine ⟨h.index q hqmem hqctx,fun v hv => ?_⟩
    unfold acksOf at hv
    rw [← hpm,h.toConsistent.lookup_eq hp] at hv
    exact (h.behind p (hqctx ▸ mem_since hps hq)).2 v hv
  · cases ha.symm.trans (h.toConsistent.advance_absent hm)
    exact ⟨h,fun _ hrs => by cases hrs⟩

end RaftTesting.ReadOnly
