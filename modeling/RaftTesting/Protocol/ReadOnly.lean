import RaftTesting.Framework.SortedMap
import RaftTesting.Framework.Outcome
import RaftTesting.Protocol.Raftpb

namespace RaftTesting

inductive ReadOnlyOption where
  | readOnlySafe
  | readOnlyLeaseBased
  deriving DecidableEq,Repr

structure ReadState where
  index : Nat
  requestCtx : Bytes
  deriving DecidableEq,Repr

/-- The acks never record false. -/
structure ReadIndexStatus where
  req : Message
  index : Nat
  acks : SortedMap Bool
  deriving DecidableEq

/-- pendingReadIndex is a map keyed by request contexts, here a list of pairs
without repeated keys. -/
structure ReadOnly where
  option : ReadOnlyOption
  pendingReadIndex : List (Bytes × ReadIndexStatus)
  readIndexQueue : List Bytes
  deriving DecidableEq

/-- m.Entries[0].Data. -/
def Message.firstData (m : Message) : Except Panic Bytes :=
  match m.entries with
  | [] => .error .indexOutOfRange
  | e::_ => .ok e.data

namespace ReadOnly

def newReadOnly (option : ReadOnlyOption) : ReadOnly := ⟨option,[],[]⟩

def addRequest (ro : ReadOnly) (index : Nat) (m : Message) : Except Panic ReadOnly := do
  let s ← m.firstData
  match ro.pendingReadIndex.lookup s with
  | some _ => .ok ro
  | none => .ok { ro with
      pendingReadIndex := ro.pendingReadIndex++[(s,⟨m,index,∅⟩)]
      readIndexQueue := ro.readIndexQueue++[s] }

/-- The acknowledgements of the request with that context, empty when there is none. -/
def recvAck (ro : ReadOnly) (id : Nat) (context : Bytes) : ReadOnly × SortedMap Bool :=
  match ro.pendingReadIndex.lookup context with
  | none => (ro,∅)
  | some rs =>
    let acks := rs.acks.insert id true
    ({ ro with pendingReadIndex := ro.pendingReadIndex.map (fun p =>
        (p.1,if p.1=context then { p.2 with acks := acks } else p.2)) },acks)

/-- The acknowledgements recorded so far, empty for an unknown context. -/
def acksOf (ro : ReadOnly) (context : Bytes) : SortedMap Bool :=
  ((ro.pendingReadIndex.lookup context).map (·.acks)).getD ∅

/-- The statuses of the queue up to and including ctx, none when ctx is not queued. -/
def dequeue (ro : ReadOnly) (ctx : Bytes) : List Bytes → Except Panic (Option (List ReadIndexStatus))
  | [] => .ok none
  | okctx::queue =>
    match ro.pendingReadIndex.lookup okctx with
    | none => .error .missingReadState
    | some rs =>
      if okctx=ctx then .ok (some [rs])
      else do
        let rest ← ro.dequeue ctx queue
        .ok (rest.map (rs::·))

/-- The map entries are deleted by the context stored in each request. -/
def deleteAll (pending : List (Bytes × ReadIndexStatus)) (rss : List ReadIndexStatus) :
    Except Panic (List (Bytes × ReadIndexStatus)) :=
  rss.foldlM (fun pending rs => do
    let s ← rs.req.firstData
    .ok (pending.filter (fun p => p.1≠s))) pending

def advance (ro : ReadOnly) (m : Message) : Except Panic (ReadOnly × List ReadIndexStatus) := do
  match ← ro.dequeue m.context ro.readIndexQueue with
  | none => .ok (ro,[])
  | some rss =>
    let pending ← deleteAll ro.pendingReadIndex rss
    .ok ({ ro with
      pendingReadIndex := pending
      readIndexQueue := ro.readIndexQueue.drop rss.length },rss)

theorem lookup_mapVals {α β : Type} (f : Bytes → α → β) (l : List (Bytes × α)) (k : Bytes) :
    (l.map (fun p => (p.1,f p.1 p.2))).lookup k=(l.lookup k).map (f k) := by
  induction l with
  | nil => rfl
  | cons p l ih =>
    obtain ⟨a,v⟩ := p
    by_cases hk : k=a
    · subst hk
      simp
    · have hk' : (k==a)=false := by simpa using hk
      simp only [List.map_cons,List.lookup_cons,hk',ih]

theorem lookup_recvAck (ro : ReadOnly) (id : Nat) (ctx ctx' : Bytes) :
    (ro.recvAck id ctx).1.pendingReadIndex.lookup ctx'=
      (ro.pendingReadIndex.lookup ctx').map (fun rs =>
        if ctx'=ctx then { rs with acks := rs.acks.insert id true } else rs) := by
  unfold recvAck
  cases hrs : ro.pendingReadIndex.lookup ctx with
  | none =>
    by_cases hc : ctx'=ctx
    · subst hc
      simp [hrs]
    · simp [hc]
  | some rs =>
    dsimp only
    rw [lookup_mapVals (fun k (v : ReadIndexStatus) =>
      if k=ctx then { v with acks := rs.acks.insert id true } else v)]
    by_cases hc : ctx'=ctx
    · subst hc
      simp [hrs]
    · simp [hc]

theorem lookup_addRequest {ro ro' : ReadOnly} {index : Nat} {m : Message} {ctx : Bytes}
    (h : ro.addRequest index m=.ok ro') (hctx : m.firstData=.ok ctx) :
    (ro'.pendingReadIndex.lookup ctx).isSome := by
  obtain ⟨s,hs,h⟩ := bind_eq_ok.mp h
  rw [hs] at hctx
  cases hctx
  split at h
  · rename_i hlook
    cases h
    simp [hlook]
  · rename_i hlook
    cases h
    simp [List.lookup_append,hlook]

def lastPendingRequestCtx (ro : ReadOnly) : Bytes := ro.readIndexQueue.getLastD []

end ReadOnly

end RaftTesting
