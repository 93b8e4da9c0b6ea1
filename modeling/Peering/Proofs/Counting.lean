import Peering.Proofs.Footprints

/-!
# Counting messages

The messages of a request are counted in two writes, first those received and then those sent. A sum
of numbers can be formed unless an integer that is too large for a double meets one. Where the first
sum cannot be formed nothing is counted, and where both can be formed both are counted. But where
only the second cannot be formed, the first write has been made already, and it stays.
-/

namespace Peering

open Registration

namespace Value

/-- The sum of two numbers. An integer that is added to a double is made one first. -/
inductive IsSum (v w : Value) : Value → Prop where
  | integers {i j : Int} (hv : v.number? = some (.int i)) (hw : w.number? = some (.int j)) :
    IsSum v w (.int (i + j))
  | doubles {x y : Float} (hv : v.number? = some (.float x)) (hw : w.number? = some (.float y)) :
    IsSum v w (.float (x + y))
  | integer_double {i : Int} {x y : Float} (hv : v.number? = some (.int i))
    (hx : floatOfInt? i = some x) (hw : w.number? = some (.float y)) : IsSum v w (.float (x + y))
  | double_integer {j : Int} {x y : Float} (hv : v.number? = some (.float x))
    (hw : w.number? = some (.int j)) (hy : floatOfInt? j = some y) : IsSum v w (.float (x + y))

/-- Two numbers have no sum: one is a double, and the other an integer too large for one. -/
def HaveNoSum (v w : Value) : Prop :=
  ∃ i x, floatLimit ≤ i.natAbs ∧
    (v.number? = some (.int i) ∧ w.number? = some (.float x) ∨
      v.number? = some (.float x) ∧ w.number? = some (.int i))

end Value

/-- An integer that becomes no double is too large for one. -/
theorem floatLimit_le_of_none {i : Int} (hi : floatOfInt? i = none) : floatLimit ≤ i.natAbs := by
  unfold floatOfInt? at hi
  split at hi
  · assumption
  · cases hi

namespace Session

/-- A counter that is a number is increased by the number to their sum, if they have one. -/
theorem increased_cases {counter increment : Value} (hcounter : counter.number?.isSome = true)
    (hincrement : increment.number?.isSome = true) :
    (∃ sum, increased counter increment = .ok sum ∧ counter.IsSum increment sum) ∨
      increased counter increment = .error .overflow ∧ counter.HaveNoSum increment := by
  obtain ⟨m, hm⟩ := Option.isSome_iff_exists.mp hcounter
  obtain ⟨n, hn⟩ := Option.isSome_iff_exists.mp hincrement
  unfold increased
  rw [hm, hn]
  cases m with
  | int i =>
    cases n with
    | int j => exact .inl ⟨_, rfl, .integers hm hn⟩
    | float y =>
      cases hx : floatOfInt? i with
      | some x =>
        simp only [Number.add?, hx, Option.map_some]
        exact .inl ⟨_, rfl, .integer_double hm hx hn⟩
      | none =>
        simp only [Number.add?, hx, Option.map_none, true_and]
        exact .inr ⟨i, y, floatLimit_le_of_none hx, .inl ⟨hm, hn⟩⟩
  | float x =>
    cases n with
    | int j =>
      cases hy : floatOfInt? j with
      | some y =>
        simp only [Number.add?, hy, Option.map_some]
        exact .inl ⟨_, rfl, .double_integer hm hn hy⟩
      | none =>
        simp only [Number.add?, hy, Option.map_none, true_and]
        exact .inr ⟨j, x, floatLimit_le_of_none hy, .inr ⟨hm, hn⟩⟩
    | float y => exact .inl ⟨_, rfl, .doubles hm hn⟩

/-- What counting two numbers of messages makes of a session, and whether it is done. -/
inductive Counted (s : Session) (received sent : Value) : Session → Except Failure Unit → Prop where
  /-- Both numbers are counted. -/
  | both {messagesReceived messagesSent : Value}
    (hreceived : s.messagesReceived.IsSum received messagesReceived)
    (hsent : s.messagesSent.IsSum sent messagesSent) :
    Counted s received sent { s with messagesReceived, messagesSent } (.ok ())
  /-- The first sum cannot be formed, and neither number is counted. -/
  | neither (hreceived : s.messagesReceived.HaveNoSum received) :
    Counted s received sent s (.error .overflow)
  /-- The second sum alone cannot be formed, and the first number is counted. -/
  | first {messagesReceived : Value}
    (hreceived : s.messagesReceived.IsSum received messagesReceived)
    (hsent : s.messagesSent.HaveNoSum sent) :
    Counted s received sent { s with messagesReceived } (.error .overflow)

/-- Numbers are counted in a session whose counters are numbers. -/
theorem CountsNumbers.counted {s : Session} (h : s.CountsNumbers) {received sent : Value}
    (hreceived : received.number?.isSome = true) (hsent : sent.number?.isSome = true) :
    s.Counted received sent (s.count received sent).1 (s.count received sent).2 := by
  rcases increased_cases h.received hreceived with ⟨m, hm, hmsum⟩ | ⟨hm, hnone⟩
  · rcases increased_cases h.sent hsent with ⟨n, hn, hnsum⟩ | ⟨hn, hnone⟩
    · simp only [Session.count, hm, hn]
      exact .both hmsum hnsum
    · simp only [Session.count, hm, hn]
      exact .first hmsum hnone
  · simp only [Session.count, hm]
    exact .neither hnone

end Session

namespace Engine

variable {e : Engine} {m : Moment}

/-- Increments that are not negative are numbers. -/
theorem isSome_number?_of_anyNegative {received sent : Value}
    (hadmitted : anyNegative received sent = .ok false) :
    received.number?.isSome = true ∧ sent.number?.isSome = true := by
  unfold anyNegative at hadmitted
  split at hadmitted
  · cases hadmitted
  · rename_i hreceived
    split at hadmitted
    · cases hadmitted
    · split at hadmitted
      · cases hadmitted
      · rename_i hsent
        exact ⟨by rw [hreceived]; rfl, by rw [hsent]; rfl⟩

/-- A request to count numbers of messages that are not negative fails and changes nothing, or it
counts both in the session at its address, or the numbers have no sum with the counters; only if
the second alone has none, the first is counted. -/
theorem Reachable.counts_both_or_neither (he : e.Reachable) {a received sent : Value}
    (hmove : m.move = .call (.incrementCounters a received sent))
    (hadmitted : anyNegative received sent = .ok false) :
    e.Fails m ∨ ∃ s s' outcome, e.ReplacesSession (e.after m) a s s' ∧
      s.Counted received sent s' outcome ∧ (e.meet m).result = outcome.map fun _ => .done := by
  obtain ⟨l, starts, h⟩ := he.exists_holds
  rcases h.counts hmove with hfails | ⟨r, hr, hreplaces, hresult⟩
  · exact .inl hfails
  · obtain ⟨hreceived, hsent⟩ := isSome_number?_of_anyNegative hadmitted
    have hnumbers := he.countsNumbers l starts h r (mem_of_at? hr).1
    exact .inr ⟨r.session, _, _, hreplaces, hnumbers.counted hreceived hsent, hresult⟩

/-- An integer that is too large for a double. -/
def vast : Nat := 2 ^ 256 * 2 ^ 256 * 2 ^ 256 * 2 ^ 256

/-- An engine on which a vast number of messages has been counted as sent. -/
def vastlyCounted : Engine :=
  ({} : Engine).run [
    ⟨.call (.addPeer (.record samplePeer)), 0.0⟩,
    ⟨.call (.incrementCounters sampleAddress (.int 0) (.int vast)), 1.0⟩]

/-- To count one message as received and half a message as sent. -/
def lopsided : Moment := ⟨.call (.incrementCounters sampleAddress (.int 1) (.float 0.5)), 2.0⟩

/-- Half a message has no sum with a vast number, so at the most the message that was received is
counted. -/
theorem counts_both_or_neither_lopsided :
    vastlyCounted.Reachable ∧ anyNegative (.int 1) (.float 0.5) = .ok false ∧
      (vastlyCounted.Fails lopsided ∨
        ∃ s s' outcome,
          vastlyCounted.ReplacesSession (vastlyCounted.after lopsided) sampleAddress s s' ∧
          s.Counted (.int 1) (.float 0.5) s' outcome ∧
          (vastlyCounted.meet lopsided).result = outcome.map fun _ => .done) := by
  have hreachable : vastlyCounted.Reachable := ⟨{}, _, ⟨rfl, rfl, rfl, rfl⟩, rfl⟩
  exact ⟨hreachable, rfl, hreachable.counts_both_or_neither rfl rfl⟩

private theorem meet_incrementCounters (e : Engine) (v received sent : Value) (now : Float) :
    e.meet ⟨.call (.incrementCounters v received sent), now⟩ =
      Call.changing (e.incrementCounters v received sent) := rfl

/-- The only registration there. -/
private def vastRegistration : Registration where
  address := "192.0.2.1"
  peer := Registry.created samplePeer 0.0
  session := { Session.initial sampleAddress 0.0 with messagesSent := .int (0 + vast) }
  generation := 1

/-- Half a message is not counted there. -/
private theorem count_vast : vastRegistration.session.count (.int 1) (.float 0.5) =
    ({ vastRegistration.session with messagesReceived := .int 1 }, .error .overflow) := by
  have hvast : floatLimit ≤ ((0 : Int) + vast).natAbs := by decide +kernel
  have hnone : floatOfInt? (0 + vast) = none := if_pos hvast
  have hincreased : Session.increased (.int (0 + vast)) (.float 0.5) = .error .overflow := by
    simp only [Session.increased, Value.number?, Number.add?, hnone, Option.map_none]
  simp only [Session.count, vastRegistration, hincreased]
  rfl

/-- Counting fails, and the message that was received has been counted. -/
theorem counts_first_lopsided :
    vastlyCounted.Reachable ∧ anyNegative (.int 1) (.float 0.5) = .ok false ∧
      (vastlyCounted.meet lopsided).result = .error .overflow ∧
      (vastlyCounted.sessionAt? sampleAddress).map Session.messagesReceived = some (.int 0) ∧
      ((vastlyCounted.after lopsided).sessionAt? sampleAddress).map Session.messagesReceived =
        some (.int 1) := by
  have hnegative : anyNegative (.int 1) (.float 0.5) = .ok false := rfl
  obtain ⟨hengine, hresult⟩ := incrementCounters_of_registered (e := vastlyCounted)
    (l := [vastRegistration]) (v := sampleAddress) rfl rfl hnegative rfl
  rw [count_vast] at hengine hresult
  have hmeet : vastlyCounted.meet lopsided = Call.changing
      (vastlyCounted.incrementCounters sampleAddress (.int 1) (.float 0.5)) :=
    meet_incrementCounters vastlyCounted sampleAddress _ _ _
  refine ⟨⟨{}, _, ⟨rfl, rfl, rfl, rfl⟩, rfl⟩, hnegative, ?_, rfl, ?_⟩
  · rw [hmeet, Call.changing, hresult, Except.map]
  · rw [after, hmeet, Call.changing, hengine]
    rfl

end Engine

end Peering
