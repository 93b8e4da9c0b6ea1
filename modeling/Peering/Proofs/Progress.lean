import Peering.Proofs.Course

/-!
# Moving a session again and again

A session record from outside may be in any state, named or given by a bare number, with any history
and any counters. Moved again and again, it enters the states that are left, one at each move; from
then on every move is refused and leaves the whole record alone. The traffic comes once, with the
last state. That move fails if a message counter is no number, but the state has been entered then.
A record whose number means no state is never moved.
-/

namespace Peering

namespace State

/-- The states after one, in order. -/
def remaining (s : State) : List State := all.drop (s.number + 1)

/-- The next state is the first one that remains. -/
theorem remaining_of_next {s t : State} (h : s.next? = some t) :
    s.remaining = t :: t.remaining := by
  cases s <;> cases h <;> rfl

/-- The states that remain and the number of the state make five. -/
theorem length_remaining (s : State) : s.remaining.length = 5 - s.number := by
  cases s <;> rfl

/-- Only the last state has no next one. -/
theorem eq_established {s : State} (h : s.next? = none) : s = established := by
  cases s <;> first | rfl | cases h

/-- No state has a number above five. -/
theorem number_le (s : State) : s.number ≤ 5 := by
  cases s <;> decide

/-- The numbers from 0 to 5 are those of states. -/
theorem exists_number_eq {k : Nat} (hk : k ≤ 5) : ∃ s : State, s.number = k := by
  have hall : ∀ k ≤ 5, ∃ s ∈ all, s.number = k := by decide
  obtain ⟨s, _, hs⟩ := hall k hk
  exact ⟨s, hs⟩

/-- A number means the state that has it. -/
theorem ofNumber?_eq_some_iff {n : Int} {s : State} : ofNumber? n = some s ↔ n = s.number := by
  constructor
  · intro h
    unfold ofNumber? at h
    split at h
    case h_7 => cases h
    all_goals
      obtain rfl := Option.some.inj h
      rfl
  · rintro rfl
    exact ofNumber?_number s

end State

/-- A code means the state that has its number. -/
theorem StateCode.state?_eq_some_iff {c : StateCode} {s : State} :
    c.state? = some s ↔ c.number = s.number := by
  cases c with
  | bare n => exact State.ofNumber?_eq_some_iff
  | state t =>
    constructor
    · rintro ⟨⟩
      rfl
    · intro h
      rw [← State.ofNumber?_eq_some_iff, StateCode.number, State.ofNumber?_number] at h
      exact h

/-- A counter once messages are added to it. What is no number stays as it is. -/
def Value.plus (v : Value) (n : Nat) : Value :=
  match v.number? with
  | some (.int m) => .int (m + n)
  | some (.float x) => .float (x + Float.ofNat n)
  | none => v

/-- What is no number is not added to. -/
theorem Value.plus_of_not_number {v : Value} (h : ¬v.number?.isSome = true) (n : Nat) :
    v.plus n = v := by
  rw [plus, Option.not_isSome_iff_eq_none.mp h]

namespace Session

/-- The session once it has been moved at each of some clock readings. -/
def movedAt (s : Session) (readings : List Float) : Session :=
  readings.foldl (fun s now => (s.advance now).1) s

/-- What each of these moves gives. -/
def outcomes (s : Session) : List Float → List (Except Failure State)
  | [] => []
  | now :: readings => (s.advance now).2 :: (s.advance now).1.outcomes readings

/-- The entries made after the last one if states are entered at clock readings, one at each, as
long as there are both. A clock that has not moved on is corrected to just after the last entry. -/
def entries (last : Float) : List State → List Float → List (State × Float)
  | state :: states, now :: readings =>
    let time := if now ≤ last then last + timeStep else now
    (state, time) :: entries time states readings
  | _, _ => []

/-- The traffic that comes with `established`: prefixes are set, and messages are added to the
counter of those received and, if that could be done, to the counter of those sent. -/
def withTraffic (s : Session) : Session :=
  { s with
    prefixesReceived := .int establishedPrefixesReceived
    prefixesSent := .int establishedPrefixesSent
    messagesReceived := s.messagesReceived.plus establishedMessagesReceived
    messagesSent :=
      if s.messagesReceived.number?.isSome then s.messagesSent.plus establishedMessagesSent
      else s.messagesSent }

/-- The session once it has made entries. The traffic comes with `established` only. -/
def through (s : Session) (entered : List (State × Float)) : Session :=
  let moved := { s with
    state := (entered.getLast?.map fun entry => .state entry.1).getD s.state
    changedAt := (entered.getLast?.map Prod.snd).getD s.changedAt
    history := s.history ++ entered.map fun entry => (.state entry.1, entry.2) }
  if .established ∈ entered.map Prod.fst then moved.withTraffic else moved

instance (s : Session) : Decidable s.CountsNumbers :=
  decidable_of_iff
    (s.messagesReceived.number?.isSome = true ∧ s.messagesSent.number?.isSome = true)
    ⟨fun ⟨hreceived, hsent⟩ => ⟨hreceived, hsent⟩, fun h => ⟨h.received, h.sent⟩⟩

/-- What the move that enters a state gives: the state, unless it is `established` and a message
counter is no number. -/
def outcomeOf (s : Session) (state : State) : Except Failure State :=
  if state = .established ∧ ¬s.CountsNumbers then .error .wrongType else .ok state

/-- Why an established session is not moved. -/
def pastEstablished (s : Session) : Failure :=
  .invalidValue (some ("session " ++ s.address.plain ++ " is already " ++ State.established.name))

/-- How a session goes on from the state with a number when it is moved at some clock readings. -/
structure GoesOn (s : Session) (k : Nat) (readings : List Float) : Prop where
  /-- Each of the first moves enters the next state, as long as states are left. All other moves
  are refused. -/
  outcomes_eq : s.outcomes readings =
    ((State.all.drop (k + 1)).take readings.length).map s.outcomeOf ++
      List.replicate (readings.length - (5 - k)) (.error s.pastEstablished)
  /-- After each move the session has made the entries so far, and nothing else is changed. -/
  movedAt_eq : ∀ i, s.movedAt (readings.take i) =
    s.through ((entries s.changedAt (State.all.drop (k + 1)) readings).take i)
  /-- The entries are those of the states that the moves enter. -/
  states_entered : (entries s.changedAt (State.all.drop (k + 1)) readings).map Prod.fst =
    (State.all.drop (k + 1)).take readings.length
  /-- There are as many as there are moves, unless fewer states are left. -/
  length_entered : (entries s.changedAt (State.all.drop (k + 1)) readings).length =
    min readings.length (5 - k)
  /-- The moves that are refused leave the whole record as it is. -/
  stays : ∀ i, 5 - k ≤ i → s.movedAt (readings.take i) = s.movedAt readings

variable {s : Session} {state next : State} {entry : State × Float} {rest : List (State × Float)}

/-- A number grows by messages that are not too many for a double, and to anything else nothing can
be added. -/
private theorem increased_natCast (v : Value) {n : Nat} (hn : n < floatLimit) :
    increased v (.int n) = if v.number?.isSome then .ok (v.plus n) else .error .wrongType := by
  unfold increased Value.plus
  cases v.number? with
  | none => rfl
  | some number =>
    cases number with
    | int m => rfl
    | float x =>
      have hlimit : ¬floatLimit ≤ (n : Int).natAbs := by omega
      have hnonneg : ¬(n : Int) < 0 := by omega
      simp only [Value.number?, Number.add?, floatOfInt?, if_neg hlimit, if_neg hnonneg,
        Option.map_some, Number.toValue]
      rfl

/-- The messages on the way are counted as the traffic says, and this succeeds if the counters are
numbers. -/
private theorem count_eq_withTraffic (s : Session) :
    ({ s with
        prefixesReceived := .int establishedPrefixesReceived
        prefixesSent := .int establishedPrefixesSent } : Session).count
          (.int establishedMessagesReceived) (.int establishedMessagesSent) =
      (s.withTraffic, if s.CountsNumbers then .ok () else .error .wrongType) := by
  have hreceived := increased_natCast s.messagesReceived
    (lt_floatLimit (n := establishedMessagesReceived) (by decide))
  have hsent := increased_natCast s.messagesSent
    (lt_floatLimit (n := establishedMessagesSent) (by decide))
  by_cases hm : s.messagesReceived.number?.isSome = true
  · rw [if_pos hm] at hreceived
    by_cases hn : s.messagesSent.number?.isSome = true
    · rw [if_pos hn] at hsent
      rw [if_pos ⟨hm, hn⟩]
      simp only [count, hreceived, hsent, withTraffic, hm, if_true]
    · rw [if_neg hn] at hsent
      rw [if_neg fun h => hn h.sent]
      simp only [count, hreceived, hsent, withTraffic, hm, if_true, Value.plus_of_not_number hn]
  · rw [if_neg hm] at hreceived
    rw [if_neg fun h => hm h.received]
    simp only [count, hreceived, withTraffic, hm, Value.plus_of_not_number hm, Bool.false_eq_true,
      if_false]

/-- What a move gives hangs on the message counters only. -/
private theorem outcomeOf_congr (s s' : Session)
    (hreceived : s'.messagesReceived = s.messagesReceived)
    (hsent : s'.messagesSent = s.messagesSent) : s'.outcomeOf = s.outcomeOf := by
  have hnumbers : s'.CountsNumbers ↔ s.CountsNumbers := by
    constructor
    · rintro ⟨hm, hn⟩
      exact ⟨hreceived ▸ hm, hsent ▸ hn⟩
    · rintro ⟨hm, hn⟩
      exact ⟨hreceived ▸ hm, hsent ▸ hn⟩
  funext state
  simp only [outcomeOf, hnumbers]

private theorem outcomeOf_established (s : Session) : s.outcomeOf .established =
    (if s.CountsNumbers then .ok () else .error .wrongType : Except Failure Unit).map
      fun _ => .established := by
  unfold outcomeOf
  by_cases hnumbers : s.CountsNumbers
  · rw [if_pos hnumbers, if_neg fun h => h.2 hnumbers]
    rfl
  · rw [if_neg hnumbers, if_pos ⟨rfl, hnumbers⟩]
    rfl

/-- Where there is a next state, a move makes one entry. -/
theorem advance_eq_through (hstate : s.state.state? = some state) (hnext : state.next? = some next)
    (now : Float) :
    s.advance now = (s.through [(next, s.entryTime now)], s.outcomeOf next) := by
  have hfollows : s.next? = .ok (some next) := by
    simp only [next?, hstate, hnext]
  unfold advance
  rw [hfollows]
  by_cases hlast : next = .established
  · subst hlast
    let moved : Session := { s with
      state := .state .established
      changedAt := s.entryTime now
      history := s.history ++ [(.state .established, s.entryTime now)] }
    have hcount : (s.enter .established now).count (.int establishedMessagesReceived)
        (.int establishedMessagesSent) = (moved.withTraffic,
          if moved.CountsNumbers then .ok () else .error .wrongType) := moved.count_eq_withTraffic
    have houtcome : s.outcomeOf .established = moved.outcomeOf .established :=
      congrFun (outcomeOf_congr moved s rfl rfl) _
    simp only [if_true, hcount]
    rw [houtcome, outcomeOf_established]
    rfl
  · have hothers : ¬State.established ∈ [next] := fun h => hlast (List.mem_singleton.mp h).symm
    simp only [hlast, if_false, enter, through, List.getLast?_singleton, List.map_cons,
      List.map_nil, hothers, outcomeOf, false_and]
    rfl

/-- An established session is not moved. -/
theorem advance_of_last (hstate : s.state.state? = some .established) (now : Float) :
    s.advance now = (s, .error s.pastEstablished) := by
  have hlast : s.next? = .ok none := by
    simp only [next?, hstate, State.next?]
  have hname : s.state.name = State.established.name := by
    simp only [StateCode.name, hstate]
  simp only [advance, hlast, hname, pastEstablished]

/-- A session whose number means no state is not moved. -/
theorem advance_of_none (hstate : s.state.state? = none) (now : Float) :
    s.advance now = (s, .error (.invalidValue none)) := by
  simp only [advance, next?, hstate]

section Entries

variable (last : Float) (states : List State) (readings : List Float)

/-- Without readings there are no entries. -/
@[simp] theorem entries_nil : entries last states [] = [] := by
  cases states <;> rfl

/-- The first readings make the first entries. -/
theorem entries_take (i : Nat) :
    entries last states (readings.take i) = (entries last states readings).take i := by
  induction readings generalizing last states i with
  | nil => simp
  | cons now readings ih =>
    cases states with
    | nil => exact (List.take_nil).symm
    | cons state states =>
      cases i with
      | zero => rfl
      | succ i => exact congrArg _ (ih _ states i)

/-- At each reading one state is entered, as long as states are left. -/
theorem map_fst_entries :
    (entries last states readings).map Prod.fst = states.take readings.length := by
  induction readings generalizing last states with
  | nil => simp
  | cons now readings ih =>
    cases states with
    | nil => rfl
    | cons state states => exact congrArg _ (ih _ states)

end Entries

section Through

/-- Without entries the session stays as it is. -/
@[simp] theorem through_nil : s.through [] = s := by
  simp [through]

/-- An entry other than the last one leaves the counters alone. -/
theorem through_of_ne (hleft : entry.1 ≠ .established) : s.through [entry] = { s with
    state := .state entry.1
    changedAt := entry.2
    history := s.history ++ [(.state entry.1, entry.2)] } := by
  have hothers : ¬State.established ∈ [entry.1] := fun h => hleft (List.mem_singleton.mp h).symm
  simp only [through, List.map_cons, List.map_nil, if_neg hothers]
  rfl

/-- An entry sets the state. -/
theorem state_through (s : Session) (entry : State × Float) :
    (s.through [entry]).state = .state entry.1 := by
  unfold through
  split <;> rfl

/-- An entry sets the time of the last change. -/
theorem changedAt_through (s : Session) (entry : State × Float) :
    (s.through [entry]).changedAt = entry.2 := by
  unfold through
  split <;> rfl

/-- An entry does not change why an established session is not moved. -/
theorem pastEstablished_through (s : Session) (entry : State × Float) :
    (s.through [entry]).pastEstablished = s.pastEstablished := by
  unfold through
  split <;> rfl

/-- Entries can be made one after the other, as none comes after `established`. -/
theorem through_cons (hlast : entry.1 = .established → rest = []) :
    (s.through [entry]).through rest = s.through (entry :: rest) := by
  cases rest with
  | nil => exact through_nil
  | cons entry' rest =>
    have hleft : entry.1 ≠ .established := fun h => List.cons_ne_nil _ _ (hlast h)
    have hmem : State.established ∈ (entry :: entry' :: rest).map Prod.fst ↔
        State.established ∈ (entry' :: rest).map Prod.fst := by
      rw [List.map_cons, List.mem_cons]
      exact or_iff_right hleft.symm
    rw [through_of_ne hleft]
    simp only [through, hmem]
    simp only [List.getLast?_cons, Option.map_some, Option.getD_some, List.map_cons,
      List.append_assoc, List.singleton_append]

/-- An entry has no part in what later ones give. -/
theorem map_outcomeOf_through {states : List State}
    (hlast : entry.1 = .established → states = []) :
    states.map (s.through [entry]).outcomeOf = states.map s.outcomeOf := by
  by_cases hstate : entry.1 = .established
  · rw [hlast hstate]
    rfl
  · rw [through_of_ne hstate]
    exact congrArg (List.map · states) (outcomeOf_congr s _ rfl rfl)

end Through

/-- Moves make entries as long as states are left, and are refused from then on. -/
private theorem run_eq (hstate : s.state.state? = some state) (readings : List Float) :
    s.movedAt readings = s.through (entries s.changedAt state.remaining readings) ∧
      s.outcomes readings = (state.remaining.take readings.length).map s.outcomeOf ++
        List.replicate (readings.length - state.remaining.length) (.error s.pastEstablished) := by
  -- by induction on the readings: one makes an entry, and the others go on from there
  induction readings generalizing s state with
  | nil => simp [movedAt, outcomes]
  | cons now readings ih =>
    cases hnext : state.next? with
    | none =>
      obtain rfl := State.eq_established hnext
      have hadvance := advance_of_last hstate now
      obtain ⟨hmoved, houtcomes⟩ := ih hstate
      constructor
      · rw [movedAt, List.foldl_cons, hadvance]
        exact hmoved
      · rw [outcomes, hadvance, houtcomes]
        simp [State.remaining, State.all, State.number, List.replicate_succ]
    | some next =>
      have hadvance := advance_eq_through hstate hnext now
      have hcode : (s.through [(next, s.entryTime now)]).state.state? = some next := by
        rw [state_through]
        rfl
      obtain ⟨hmoved, houtcomes⟩ := ih hcode
      rw [changedAt_through] at hmoved
      rw [State.remaining_of_next hnext]
      constructor
      · have hnone : next = .established →
            entries (s.entryTime now) next.remaining readings = [] := by
          rintro rfl
          rfl
        rw [movedAt, List.foldl_cons, hadvance]
        exact hmoved.trans (through_cons hnone)
      · have hnone : next = .established → next.remaining.take readings.length = [] := by
          rintro rfl
          exact List.take_nil
        rw [outcomes, hadvance, houtcomes, map_outcomeOf_through hnone, pastEstablished_through,
          List.length_cons, List.length_cons, Nat.add_sub_add_right]
        rfl

private theorem goesOn (hstate : s.state.state? = some state) (readings : List Float) :
    s.GoesOn state.number readings := by
  have hleft : state.remaining.length = 5 - state.number := state.length_remaining
  have hstates := map_fst_entries s.changedAt state.remaining readings
  have hlength : (entries s.changedAt state.remaining readings).length =
      min readings.length (5 - state.number) := by
    rw [← hleft, ← List.length_take, ← hstates, List.length_map]
  have hmoved (i : Nat) : s.movedAt (readings.take i) =
      s.through ((entries s.changedAt state.remaining readings).take i) := by
    rw [← entries_take]
    exact (run_eq hstate _).1
  constructor
  case outcomes_eq =>
    rw [← hleft]
    exact (run_eq hstate readings).2
  case movedAt_eq => exact hmoved
  case states_entered => exact hstates
  case length_entered => exact hlength
  case stays =>
    intro i hi
    have hall : (entries s.changedAt state.remaining readings).length ≤ i := by
      rw [hlength]
      exact Nat.le_trans (Nat.min_le_right _ _) hi
    rw [hmoved, List.take_of_length_le hall]
    exact (run_eq hstate readings).1.symm

/-- No move does anything to a session whose number means no state. -/
private theorem run_of_none (hstate : s.state.state? = none) (readings : List Float) :
    s.movedAt readings = s ∧
      s.outcomes readings = List.replicate readings.length (.error (.invalidValue none)) := by
  induction readings with
  | nil => exact ⟨rfl, rfl⟩
  | cons now readings ih =>
    have hadvance := advance_of_none hstate now
    obtain ⟨hmoved, houtcomes⟩ := ih
    constructor
    · rw [movedAt, List.foldl_cons, hadvance]
      exact hmoved
    · rw [outcomes, hadvance, houtcomes]
      rfl

/-- Moved at any readings of the clock, a session in one of the states goes on from there, whether
the state is named or given by its number. If its number means no state, every move is refused and
leaves the whole record as it is. -/
theorem moves_to_the_end (s : Session) (readings : List Float) :
    (∀ k : Nat, k ≤ 5 → s.state.number = k → s.GoesOn k readings) ∧
      ((∀ k : Nat, k ≤ 5 → s.state.number ≠ k) →
        s.outcomes readings = List.replicate readings.length (.error (.invalidValue none)) ∧
          ∀ i, s.movedAt (readings.take i) = s) := by
  constructor
  · intro k hk hnumber
    obtain ⟨state, rfl⟩ := State.exists_number_eq hk
    exact goesOn (StateCode.state?_eq_some_iff.mpr hnumber) readings
  · intro hnone
    have hstate : s.state.state? = none := by
      refine Option.eq_none_iff_forall_ne_some.mpr fun state hstate => ?_
      exact hnone state.number state.number_le (StateCode.state?_eq_some_iff.mp hstate)
    exact ⟨(run_of_none hstate readings).2, fun i => (run_of_none hstate _).1⟩

/-- A record from outside, in a state given by its number, with half a message counted as sent. -/
def halfwaySession : Session where
  address := .text "192.0.2.1"
  state := .bare 3
  changedAt := 7.0
  messagesReceived := .int 5
  messagesSent := .float 0.5
  history := [(.bare 9, 7.0)]

/-- Two states are left, and the second is entered just after the first as the clock goes back. The
third move is refused. -/
theorem moves_to_the_end_halfway :
    halfwaySession.state.number = (3 : Nat) ∧
      halfwaySession.outcomes [9.0, 8.0, 20.0] = [.ok .openConfirm, .ok .established,
        .error (.invalidValue (some "session 192.0.2.1 is already Established"))] ∧
      halfwaySession.movedAt [9.0, 8.0, 20.0] = { halfwaySession with
        state := .state .established
        changedAt := 9.0 + timeStep
        history := [(.bare 9, 7.0), (.state .openConfirm, 9.0),
          (.state .established, 9.0 + timeStep)]
        prefixesReceived := .int 100
        prefixesSent := .int 50
        messagesReceived := .int 1005
        messagesSent := .float (0.5 + 900.0) } := by
  have hnumber : halfwaySession.state.number = (3 : Nat) := rfl
  have hgoesOn := (halfwaySession.moves_to_the_end [9.0, 8.0, 20.0]).1 3 (by decide) hnumber
  have hentries : entries halfwaySession.changedAt (State.all.drop 4) [9.0, 8.0, 20.0] =
      [(.openConfirm, 9.0), (.established, 9.0 + timeStep)] := by
    decide +kernel
  have hsent : (0.5 : Float) + Float.ofNat 900 = 0.5 + 900.0 := by
    decide +kernel
  have hmoved := hgoesOn.movedAt_eq 3
  rw [hentries] at hmoved
  refine ⟨hnumber, hgoesOn.outcomes_eq, hmoved.trans ?_⟩
  rw [← hsent]
  rfl

/-- A record from outside in which a text stands for the messages received. -/
def miscountedSession : Session where
  address := .text "192.0.2.1"
  state := .state .openConfirm
  messagesReceived := .text "many"

/-- One state is left, and the move that enters it fails, though it has entered the state. -/
theorem entering_fails_miscounted :
    miscountedSession.state.number = (4 : Nat) ∧
      miscountedSession.outcomes [1.0] = [.error .wrongType] ∧
      miscountedSession.outcomes [1.0] ≠ [.ok .established] ∧
      (miscountedSession.movedAt [1.0]).state = .state .established := by
  have houtcomes : miscountedSession.outcomes [1.0] = [.error .wrongType] := rfl
  refine ⟨rfl, houtcomes, ?_, rfl⟩
  rw [houtcomes]
  rintro ⟨⟩

end Session

end Peering
