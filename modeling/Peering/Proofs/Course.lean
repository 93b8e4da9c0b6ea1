import Peering.Proofs.Invariant

/-!
# The course of a session

A session starts idle and enters the states one after the other. Its history says so: it lists
the states up to the present one, each with the time at which it was entered. This file shows that
moving a session keeps its history in this form and at most adds the next state to it.
-/

namespace Peering

namespace State

/-- The states up to one, in order. -/
def upTo (s : State) : List State := all.take (s.number + 1)

/-- The next state comes at the end. -/
theorem upTo_next {s t : State} (h : s.next? = some t) : upTo t = upTo s ++ [t] := by
  cases s <;> cases h <;> rfl

/-- There is one more state up to a state than its number. -/
theorem length_upTo (s : State) : (upTo s).length = s.number + 1 := by
  cases s <;> rfl

/-- The states up to one begin the list of all states. -/
theorem upTo_prefix_all (s : State) : upTo s <+: all := List.take_prefix _ _

/-- There is a state up to every state. -/
theorem upTo_ne_nil (s : State) : upTo s ≠ [] := by
  cases s <;> simp [upTo, all]

/-- Every state but the last has a next one. -/
theorem exists_next {s : State} (hleft : s ≠ established) : ∃ next, s.next? = some next := by
  cases s <;> first | exact ⟨_, rfl⟩ | exact absurd rfl hleft

end State

namespace Session

section Enter

variable (s : Session) (state : State) (now : Float)

/-- Entering a state sets it. -/
@[simp] theorem state_enter : (s.enter state now).state = .state state := by
  unfold enter
  split <;> rfl

/-- Entering a state sets the time of the last change. -/
@[simp] theorem changedAt_enter : (s.enter state now).changedAt = s.entryTime now := by
  unfold enter
  split <;> rfl

/-- Entering a state adds one entry to the history. -/
@[simp] theorem history_enter :
    (s.enter state now).history = s.history ++ [(.state state, s.entryTime now)] := by
  unfold enter
  split <;> rfl

end Enter

/-- Moving a session enters the next state, or leaves the session as it is where there is
none. -/
theorem advance_eq_or_enter (s : Session) (now : Float) :
    (s.advance now).1 = s ∨
      ∃ state, s.next? = .ok (some state) ∧
        (s.advance now).1.SameCourse (s.enter state now) := by
  unfold advance
  split
  · exact Or.inl rfl
  · exact Or.inl rfl
  · rename_i state hnext
    right
    refine ⟨state, hnext, ?_⟩
    split
    · exact sameCourse_count _ _ _
    · exact ⟨rfl, rfl, rfl, rfl⟩

/-- Moving a session leaves its history alone or adds one entry. -/
theorem history_advance (s : Session) (now : Float) :
    (s.advance now).1.history = s.history ∨
      ∃ entry, (s.advance now).1.history = s.history ++ [entry] := by
  rcases s.advance_eq_or_enter now with hsame | ⟨state, _, hcourse⟩
  · exact Or.inl (congrArg Session.history hsame)
  · right
    exact ⟨_, hcourse.history_eq.trans (s.history_enter state now)⟩

/-- The message counters are integers. -/
def CountsIntegers (s : Session) : Prop :=
  ∃ m n, s.messagesReceived = .int m ∧ s.messagesSent = .int n

/-- A new session counts by integers. -/
theorem countsIntegers_initial (address : Value) (now : Float) :
    (initial address now).CountsIntegers := ⟨0, 0, rfl, rfl⟩

/-- Integers are counted without fail. -/
theorem count_integers {s : Session} {m n : Int} (hm : s.messagesReceived = .int m)
    (hn : s.messagesSent = .int n) (i j : Int) :
    s.count (.int i) (.int j) =
      ({ s with messagesReceived := .int (m + i), messagesSent := .int (n + j) }, .ok ()) := by
  simp only [count, hm, hn, increased, Value.number?, Number.add?, Number.toValue]

/-- Moving a session keeps its message counters integers. -/
theorem CountsIntegers.advance {s : Session} (h : s.CountsIntegers) (now : Float) :
    (s.advance now).1.CountsIntegers := by
  obtain ⟨m, n, hm, hn⟩ := h
  unfold Session.advance
  split
  · exact ⟨m, n, hm, hn⟩
  · exact ⟨m, n, hm, hn⟩
  · rename_i state _
    have hm' : (s.enter state now).messagesReceived = .int m := by
      unfold enter
      split <;> exact hm
    have hn' : (s.enter state now).messagesSent = .int n := by
      unfold enter
      split <;> exact hn
    split
    · simp only [count_integers hm' hn']
      exact ⟨_, _, rfl, rfl⟩
    · exact ⟨m, n, hm', hn'⟩

section Numbers

variable {s : Session} {counter increment : Value} {state : State}

/-- The message counters are numbers. -/
structure CountsNumbers (s : Session) : Prop where
  received : s.messagesReceived.number?.isSome = true
  sent : s.messagesSent.number?.isSome = true

/-- A new session counts by numbers. -/
theorem countsNumbers_initial (address : Value) (now : Float) :
    (initial address now).CountsNumbers := ⟨rfl, rfl⟩

/-- What has been added to is a number. -/
theorem isSome_number?_of_increased {sum : Value} (h : increased counter increment = .ok sum) :
    sum.number?.isSome = true := by
  unfold increased at h
  split at h
  · split at h
    · rename_i n _
      obtain rfl := Except.ok.inj h
      cases n <;> rfl
    · cases h
  · cases h

/-- To a number every integer can be added that is not too large for a double. -/
theorem exists_increased {n : Int} (hcounter : counter.number?.isSome = true)
    (hn : n.natAbs < floatLimit) : ∃ sum, increased counter (.int n) = .ok sum := by
  obtain ⟨number, hnumber⟩ := Option.isSome_iff_exists.mp hcounter
  unfold increased
  rw [hnumber]
  cases number with
  | int m => exact ⟨_, rfl⟩
  | float x =>
    have hlimit : ¬floatLimit ≤ n.natAbs := by omega
    simp only [Value.number?, Number.add?, floatOfInt?, if_neg hlimit, Option.map_some]
    exact ⟨_, rfl⟩

/-- A thousand is far from being too large for a double. -/
theorem lt_floatLimit {n : Nat} (hn : n ≤ 1000) : n < floatLimit := by
  have hmantissa : 1000 < Nat.pow 2 54 - 1 := by decide
  have hlimit : Nat.pow 2 54 - 1 ≤ floatLimit := by
    unfold floatLimit
    generalize 970 = k
    exact Nat.le_mul_of_pos_right _ (Nat.pow_pos (by decide))
  exact Nat.lt_of_le_of_lt hn (Nat.lt_of_lt_of_le hmantissa hlimit)

/-- Counting keeps numbers, even where a sum cannot be formed. -/
theorem CountsNumbers.count (h : s.CountsNumbers) (received sent : Value) :
    (s.count received sent).1.CountsNumbers := by
  unfold Session.count
  split
  · exact h
  · rename_i hreceived
    have hreceived' := isSome_number?_of_increased hreceived
    simp only
    split
    · exact ⟨hreceived', h.sent⟩
    · rename_i hsent
      exact ⟨hreceived', isSome_number?_of_increased hsent⟩

/-- Entering a state keeps the counters numbers. -/
theorem CountsNumbers.enter (h : s.CountsNumbers) (state : State) (now : Float) :
    (s.enter state now).CountsNumbers := by
  unfold Session.enter
  split <;> exact ⟨h.received, h.sent⟩

/-- Moving a session keeps its message counters numbers. -/
theorem CountsNumbers.advance (h : s.CountsNumbers) (now : Float) :
    (s.advance now).1.CountsNumbers := by
  unfold Session.advance
  split
  · exact h
  · exact h
  · rename_i state _
    split
    · exact (h.enter state now).count _ _
    · exact h.enter state now

/-- The messages on the way to `established` are always counted. -/
theorem CountsNumbers.count_established (h : s.CountsNumbers) :
    (s.count (.int establishedMessagesReceived) (.int establishedMessagesSent)).2 = .ok () := by
  obtain ⟨received, hreceived⟩ := exists_increased h.received
    (n := establishedMessagesReceived) (lt_floatLimit (by decide))
  obtain ⟨sent, hsent⟩ := exists_increased h.sent
    (n := establishedMessagesSent) (lt_floatLimit (by decide))
  simp only [Session.count, hreceived, hsent]

/-- A session whose counters are numbers moves on without fail where there is a next state. -/
theorem CountsNumbers.advance_eq_ok (h : s.CountsNumbers) (hnext : s.next? = .ok (some state))
    (now : Float) : (s.advance now).2 = .ok state := by
  unfold Session.advance
  rw [hnext]
  simp only
  split
  · rw [(h.enter state now).count_established]
    rfl
  · rfl

end Numbers

/-- A session in a state goes to the next state. -/
theorem next?_of_state {s : Session} {state : State} (h : s.state = .state state) :
    s.next? = .ok state.next? := by
  simp only [next?, h, StateCode.state?]

/-- A session is established exactly if it is in the last state. -/
theorem isEstablished_of_state {s : Session} {state : State} (h : s.state = .state state) :
    s.isEstablished = true ↔ state = .established := by
  rw [isEstablished, h]
  cases state <;> decide

/-- A session that has moved is in the next state, and its history has one more entry. -/
theorem advance_of_next {s : Session} {state next : State} (h : s.state = .state state)
    (hnext : state.next? = some next) (now : Float) :
    (s.advance now).1.state = .state next ∧
      (s.advance now).1.history = s.history ++ [(.state next, s.entryTime now)] := by
  have hnext' : s.next? = .ok (some next) := (next?_of_state h).trans (congrArg _ hnext)
  have hcourse : (s.advance now).1.SameCourse (s.enter next now) := by
    unfold advance
    rw [hnext']
    simp only
    split
    · exact sameCourse_count _ _ _
    · exact ⟨rfl, rfl, rfl, rfl⟩
  exact ⟨hcourse.state_eq.trans (s.state_enter next now),
    hcourse.history_eq.trans (s.history_enter next now)⟩

/-- The history of a session tells its course since a time of creation. -/
structure OnCourse (s : Session) (createdAt : Value) : Prop where
  /-- The states entered are those up to the present one. -/
  states : ∃ state, s.state = .state state ∧
    s.history.map Prod.fst = (State.upTo state).map StateCode.state
  /-- The last entry is the present state, with the time at which it was entered. -/
  last : s.history.getLast? = some (s.state, s.changedAt)
  /-- The first entry is the idle state, with the time of creation. -/
  first : ∃ t, s.history.head? = some (.state .idle, t) ∧ createdAt = .float t

/-- A new session is at the beginning of its course. -/
theorem onCourse_initial (address : Value) (now : Float) :
    (initial address now).OnCourse (.float now) where
  states := ⟨.idle, rfl, rfl⟩
  last := rfl
  first := ⟨now, rfl, rfl⟩

/-- What does not touch the course keeps the history in form. -/
theorem OnCourse.of_sameCourse {s s' : Session} {createdAt : Value} (h : s.OnCourse createdAt)
    (hsame : s'.SameCourse s) : s'.OnCourse createdAt where
  states := by
    rw [hsame.state_eq, hsame.history_eq]
    exact h.states
  last := by
    rw [hsame.state_eq, hsame.history_eq, hsame.changedAt_eq]
    exact h.last
  first := by
    rw [hsame.history_eq]
    exact h.first

/-- Entering the next state keeps the history in form. -/
theorem OnCourse.enter {s : Session} {createdAt : Value} (h : s.OnCourse createdAt)
    {next : State} (hnext : s.next? = .ok (some next)) (now : Float) :
    (s.enter next now).OnCourse createdAt := by
  obtain ⟨state, hstate, hvisited⟩ := h.states
  have hfollows : state.next? = some next := by
    simpa [next?, hstate, StateCode.state?] using hnext
  constructor
  case states =>
    refine ⟨next, s.state_enter next now, ?_⟩
    rw [history_enter, List.map_append, hvisited, State.upTo_next hfollows, List.map_append]
    rfl
  case last =>
    rw [history_enter, state_enter, changedAt_enter, List.getLast?_append]
    rfl
  case first =>
    obtain ⟨t, hhead, hcreated⟩ := h.first
    refine ⟨t, ?_, hcreated⟩
    rw [history_enter, List.head?_append, hhead]
    rfl

/-- Moving a session keeps its history in form. -/
theorem OnCourse.advance {s : Session} {createdAt : Value} (h : s.OnCourse createdAt)
    (now : Float) : (s.advance now).1.OnCourse createdAt := by
  rcases s.advance_eq_or_enter now with hsame | ⟨state, hnext, hcourse⟩
  · rw [hsame]
    exact h
  · exact (h.enter hnext now).of_sameCourse hcourse

/-- An established session is not moved any more. -/
theorem OnCourse.advance_established {s : Session} {createdAt : Value} (h : s.OnCourse createdAt)
    (hestablished : s.isEstablished = true) (now : Float) : (s.advance now).1 = s := by
  obtain ⟨state, hstate, _⟩ := h.states
  have hlast : state = .established := by
    simp only [isEstablished, hstate, StateCode.same, StateCode.number, beq_iff_eq] at hestablished
    cases state <;> simp [State.number] at hestablished ⊢
  rcases s.advance_eq_or_enter now with hsame | ⟨next, hnext, _⟩
  · exact hsame
  · simp [next?, hstate, hlast, StateCode.state?, State.next?] at hnext

/-- Where one history goes on from another, the states entered in between are the ones that come
after the first state, up to the second, and none is left out. -/
theorem OnCourse.between {s s' : Session} {createdAt createdAt' : Value}
    (h : s.OnCourse createdAt) (h' : s'.OnCourse createdAt') (hgrows : s.history <+: s'.history) :
    ∃ state state', s.state = .state state ∧ s'.state = .state state' ∧
      state.number ≤ state'.number ∧
      ∃ entered, s'.history = s.history ++ entered ∧
        entered.map Prod.fst =
          ((State.upTo state').drop (state.number + 1)).map StateCode.state := by
  obtain ⟨state, hstate, hvisited⟩ := h.states
  obtain ⟨state', hstate', hvisited'⟩ := h'.states
  obtain ⟨entered, hentered⟩ := hgrows
  have hlength : s.history.length = state.number + 1 := by
    simpa [State.length_upTo] using congrArg List.length hvisited
  have hlength' : s'.history.length = state'.number + 1 := by
    simpa [State.length_upTo] using congrArg List.length hvisited'
  refine ⟨state, state', hstate, hstate', ?_, entered, hentered.symm, ?_⟩
  · have hsum : s'.history.length = s.history.length + entered.length := by
      rw [← hentered, List.length_append]
    omega
  · have hdrop : entered = s'.history.drop (state.number + 1) := by
      rw [← hentered, ← hlength, List.drop_left]
    rw [hdrop, List.map_drop, hvisited', List.map_drop]

end Session

end Peering
