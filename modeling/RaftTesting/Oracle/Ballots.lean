import Mathlib.Data.List.ReduceOption
import RaftTesting.Oracle.Heartbeats
import RaftTesting.Quorum.Majority

namespace RaftTesting.Oracle

open MajorityConfig (ids len slice voteResult card_filter_ids len_eq_zero)

open Netrix

def votesKey (term replica : String) : String := "_votes_"++term++"_"++replica

section

variable [Netrix]

/-- CountVotes on an event for which GetMessageFromEvent finds this message. -/
def countVotes (vars : Vars) : Option Message → Vars
  | none => vars
  | some msg =>
    if msg.type≠.msgVoteResp ∨ msg.reject=true then vars
    else
      let key := votesKey (toString msg.term) (toString msg.toId)
      let vars := if Netrix.has vars key then vars else setCounter vars key
      incr vars key

/-- cap is what ReplicaStore.Cap answers. -/
def isCorrectLeader (cap : Nat) (e : Event) (vars : Vars) : Bool :=
  match e.type with
  | .other => false
  | .generic t params => t="StateChange" &&
      match params.lookup "new_state" with
      | none => false
      | some newState => newState=StateType.stateLeader.string &&
          match params.lookup "term" with
          | none => false
          | some term =>
            let f := (cap-1)/2
            match getCounter vars (votesKey term e.replica) with
            | none => false
            | some voteCount => decide (f≤voteCount)

/-- The variables when CountVotes has seen the messages of these events. -/
def votesCounted (msgs : List (Option Message)) : Vars := msgs.foldl countVotes empty

end

/-- The message grants c the vote of its sender in term t. -/
def grants (c t : Nat) (msg : Message) : Bool :=
  decide (msg.type=.msgVoteResp) && !msg.reject && decide (msg.term=t) && decide (msg.toId=c)

/-- The senders of the messages that grant c their vote, each one as often as it did. -/
def grantors (c t : Nat) (msgs : List (Option Message)) : List Nat :=
  (msgs.reduceOption.filter (grants c t)).map Message.fromId

/-- c has its own vote and those that were granted to it. -/
def ballots (c t : Nat) (msgs : List (Option Message)) : SortedMap Bool :=
  (c::grantors c t msgs).foldl (fun votes id => votes.insert id true) ∅

/-- A leader that the condition accepts has won its election among the replicas. -/
def Sound [Netrix] (replicas : MajorityConfig) (c t : Nat) (msgs : List (Option Message)) : Prop :=
  isCorrectLeader (len replicas) (stateChange c .stateLeader t) (votesCounted msgs)=true →
    voteResult replicas (ballots c t msgs)=.voteWon

/-- The replicas other than c that granted it their vote. -/
def supporters (replicas : MajorityConfig) (c t : Nat) (msgs : List (Option Message)) :
    Finset Nat :=
  (ids replicas).filter (fun id => id≠c ∧ id ∈ grantors c t msgs)

theorem underscore_notMem (n : Nat) : '_'∉(toString n).toList := by
  intro hmem
  have hdigit := Nat.isDigit_of_mem_toDigits (by decide) (by decide) (Nat.toList_repr ▸ hmem)
  exact absurd hdigit (by decide)

theorem toString_digits_inj {m n : Nat} (h : (toString m).toList=(toString n).toList) : m=n := by
  have hm : (toString m).toList=Nat.toDigits 10 m := Nat.toList_repr
  have hn : (toString n).toList=Nat.toDigits 10 n := Nat.toList_repr
  rw [hm,hn] at h
  calc m=Nat.ofDigitChars 10 (Nat.toDigits 10 m) 0 :=
        (Nat.ofDigitChars_toDigits (by decide) (by decide)).symm
    _=Nat.ofDigitChars 10 (Nat.toDigits 10 n) 0 := by rw [h]
    _=n := Nat.ofDigitChars_toDigits (by decide) (by decide)

/-- The term and the candidate can be read off the key. -/
theorem votesKey_inj {t t' c c' : Nat} :
    votesKey (toString t) (toString c)=votesKey (toString t') (toString c') ↔ t=t' ∧ c=c' := by
  constructor
  · intro h
    have hlist := congrArg String.toList h
    simp only [votesKey,String.toList_append,List.append_assoc] at hlist
    have hparts := (List.append_cons_inj_of_notMem (underscore_notMem t)
      (underscore_notMem c)).mp (List.append_cancel_left hlist)
    exact ⟨toString_digits_inj hparts.1,toString_digits_inj hparts.2.2⟩
  · rintro ⟨rfl,rfl⟩
    rfl

theorem grantors_append (c t : Nat) (msgs : List (Option Message)) (m : Option Message) :
    grantors c t (msgs++[m])=grantors c t msgs++grantors c t [m] := by
  simp [grantors,List.reduceOption_append]

theorem grantors_some (c t : Nat) (msg : Message) :
    grantors c t [some msg]=if grants c t msg then [msg.fromId] else [] := by
  cases h : grants c t msg <;> simp [grantors,h]

section

variable [Netrix]

/-- What is found under a key that has been counted n times. -/
structure Counted (vars : Vars) (key : String) (n : Nat) : Prop where
  has : Netrix.has vars key=decide (n≠0)
  counter : getCounter vars key=if n=0 then none else some n

theorem counted_empty (key : String) : Counted empty key 0 :=
  ⟨has_empty key,getCounter_empty key⟩

/-- The counter is set up when it is first needed. -/
theorem Counted.incr {vars : Vars} {key k : String} {n m : Nat} (h : Counted vars key n)
    (hk : Counted vars k m) :
    Counted (Netrix.incr (if Netrix.has vars key then vars else setCounter vars key) key) k
      (if k=key then n+1 else m) := by
  rw [h.has]
  by_cases hn : n=0
  · subst hn
    simp only [ne_eq,not_true_eq_false,decide_false,Bool.false_eq_true,if_false]
    refine ⟨?_,?_⟩
    · rw [has_incr,has_setCounter,hk.has]
      by_cases hkey : k=key <;> simp [hkey]
    · rw [getCounter_incr,getCounter_setCounter,getCounter_setCounter,hk.counter]
      by_cases hkey : k=key <;> simp [hkey]
  · simp only [ne_eq,hn,not_false_eq_true,decide_true,if_true]
    refine ⟨?_,?_⟩
    · rw [has_incr,hk.has]
      by_cases hkey : k=key
      · subst hkey
        have hnm := hk.has.symm.trans h.has
        simp_all
      · simp [hkey]
    · rw [getCounter_incr,h.counter,hk.counter]
      by_cases hkey : k=key <;> simp [hkey,hn]

/-- A message counts for the candidate and the term that it grants a vote in. -/
theorem Counted.countVotes {vars : Vars} {msg : Message} {n m c t : Nat}
    (h : Counted vars (votesKey (toString msg.term) (toString msg.toId)) n)
    (hk : Counted vars (votesKey (toString t) (toString c)) m) :
    Counted (countVotes vars (some msg)) (votesKey (toString t) (toString c))
      (if grants c t msg then n+1 else m) := by
  unfold Oracle.countVotes
  dsimp only
  by_cases hskip : msg.type≠.msgVoteResp ∨ msg.reject=true
  · have hgrants : grants c t msg=false := by
      rcases hskip with htype | hreject
      · simp [grants,htype]
      · simp [grants,hreject]
    rw [if_pos hskip,hgrants,if_neg Bool.false_ne_true]
    exact hk
  · rw [if_neg hskip]
    rw [not_or,not_not,Bool.not_eq_true] at hskip
    have hgrants : grants c t msg=true ↔ t=msg.term ∧ c=msg.toId := by
      simp only [grants,hskip,decide_true,Bool.not_false,Bool.true_and,Bool.and_eq_true,
        decide_eq_true_eq]
      exact and_congr eq_comm eq_comm
    have hinc := h.incr hk
    simp only [votesKey_inj] at hinc
    simp only [hgrants]
    exact hinc

/-- Every message that grants the vote is counted, and no other one is. -/
theorem votesCounted_counted (c t : Nat) (msgs : List (Option Message)) :
    Counted (votesCounted msgs) (votesKey (toString t) (toString c))
      (grantors c t msgs).length := by
  induction msgs using List.reverseRecOn generalizing c t with
  | nil => exact counted_empty _
  | append_singleton msgs m ih =>
    rw [votesCounted,List.foldl_append,grantors_append,List.length_append]
    change Counted (countVotes (votesCounted msgs) m) _ _
    cases m with
    | none => exact ih c t
    | some msg =>
      have hcount := (ih msg.toId msg.term).countVotes (ih c t)
      rw [grantors_some]
      cases hgrants : grants c t msg with
      | false =>
        rw [hgrants] at hcount
        exact hcount
      | true =>
        have hsame : t=msg.term ∧ c=msg.toId := by
          simp only [grants,Bool.and_eq_true,decide_eq_true_eq] at hgrants
          exact ⟨hgrants.1.2.symm,hgrants.2.symm⟩
        rw [hgrants,if_pos rfl,← hsame.1,← hsame.2] at hcount
        exact hcount

/-- A leader is accepted for the number of messages: at least one, and at least (n-1)/2. -/
theorem isCorrectLeader_iff (n c t : Nat) (msgs : List (Option Message)) :
    isCorrectLeader n (stateChange c .stateLeader t) (votesCounted msgs)=true ↔
      max 1 ((n-1)/2)≤(grantors c t msgs).length := by
  have hlookup : isCorrectLeader n (stateChange c .stateLeader t) (votesCounted msgs)=
      match getCounter (votesCounted msgs) (votesKey (toString t) (toString c)) with
      | none => false
      | some voteCount => decide ((n-1)/2≤voteCount) := rfl
  rw [hlookup,(votesCounted_counted c t msgs).counter]
  cases (grantors c t msgs).length with
  | zero => simp
  | succ k => simp

end

theorem get?_ballots (c t : Nat) (msgs : List (Option Message)) (id : Nat) :
    (ballots c t msgs).get? id=some true ↔ id=c ∨ id ∈ grantors c t msgs := by
  have hfold : ∀ (l : List Nat) (votes : SortedMap Bool),
      (l.foldl (fun votes id => votes.insert id true) votes).get? id=some true ↔
        id ∈ l ∨ votes.get? id=some true := by
    intro l
    induction l with
    | nil => simp
    | cons v l ih =>
      intro votes
      rw [List.foldl_cons,ih,SortedMap.get?_insert,List.mem_cons]
      by_cases hid : id=v <;> simp [hid]
  rw [ballots,hfold]
  simp

/-- c needs the votes of half of the replicas beside its own. -/
theorem voteResult_ballots {replicas : MajorityConfig} {c : Nat}
    (hc : MajorityConfig.has replicas c=true) (t : Nat) (msgs : List (Option Message)) :
    voteResult replicas (ballots c t msgs)=.voteWon ↔
      len replicas/2≤(supporters replicas c t msgs).card := by
  have hset : (ids replicas).filter (fun id => (ballots c t msgs).get? id=some true)=
      insert c (supporters replicas c t msgs) := by
    ext id
    rw [Finset.mem_filter,get?_ballots,Finset.mem_insert,supporters,Finset.mem_filter]
    by_cases hid : id=c
    · simp [hid,hc]
    · simp [hid]
  have hnot : c∉supporters replicas c t msgs := by simp [supporters]
  have hcard : ((slice replicas).filter
      (fun id => (ballots c t msgs).get? id=some true)).length=
        (supporters replicas c t msgs).card+1 := by
    rw [← card_filter_ids,hset,Finset.card_insert_of_notMem hnot]
  have hlen : len replicas≠0 := by
    intro hz
    rw [(len_eq_zero replicas).mp hz] at hc
    cases hc
  simp only [voteResult,hcard,if_neg hlen]
  split_ifs <;> simp <;> omega

def grant (voter c t : Nat) : Option Message :=
  some { type := .msgVoteResp, fromId := voter, toId := c, term := t }

/-- The number of messages is compared with (n-1)/2, but it is the replicas that must be at
least n/2. -/
theorem sound_iff [Netrix] (replicas : MajorityConfig) (c : Nat)
    (hc : MajorityConfig.has replicas c=true) (t : Nat) (msgs : List (Option Message)) :
    Sound replicas c t msgs ↔
      (grantors c t msgs).length < max 1 ((len replicas-1)/2) ∨
        len replicas/2≤(supporters replicas c t msgs).card := by
  rw [Sound,isCorrectLeader_iff,voteResult_ballots hc]
  omega

section

local instance plainBallots : Netrix := .plain

/-- With two voters of five the condition is right. -/
theorem sound_iff_five : Sound (some (.ofList [1,2,3,4,5])) 1 2 [grant 2 1 2,grant 3 1 2] ↔
    (grantors 1 2 [grant 2 1 2,grant 3 1 2]).length < max 1 ((5-1)/2) ∨
      5/2≤(supporters (some (.ofList [1,2,3,4,5])) 1 2 [grant 2 1 2,grant 3 1 2]).card :=
  sound_iff (some (.ofList [1,2,3,4,5])) 1 (by decide) 2 [grant 2 1 2,grant 3 1 2]

/-- One voter of five is heard twice; of four replicas one voter is enough. -/
theorem accepted_without_majority :
    isCorrectLeader 5 (stateChange 1 .stateLeader 2) (votesCounted [grant 2 1 2,grant 2 1 2])=true ∧
    voteResult (some (.ofList [1,2,3,4,5])) (ballots 1 2 [grant 2 1 2,grant 2 1 2])=.votePending ∧
    isCorrectLeader 4 (stateChange 1 .stateLeader 2) (votesCounted [grant 2 1 2])=true ∧
    voteResult (some (.ofList [1,2,3,4])) (ballots 1 2 [grant 2 1 2])=.votePending := by
  refine ⟨?_,by decide,?_,by decide⟩
  · rw [isCorrectLeader_iff]
    decide
  · rw [isCorrectLeader_iff]
    decide

end

end RaftTesting.Oracle
