import Peering.Proofs.Parallel

/-!
# Runs of a part

From a run the calls for some registrations are deleted, and the turns of their walks; the turns of
the other walks are those of the walks under their other numbers. Where the calls that are kept are
those for registrations that count, the run of what is left ends with the part of the engine that
counts, and on the way the calls are answered alike and the walks ask for the same.
-/

namespace Peering

/-- The call is not for an address outside of a set. -/
def Call.staysIn (S : Value → Bool) (c : Call) : Bool := c.target?.all S

/-- The call is for an address of a set. -/
def Call.isFor (S : Value → Bool) (c : Call) : Bool := c.target?.any S

/-- A call for an address of a set is not for one outside of it. -/
theorem Call.staysIn_of_isFor {S : Value → Bool} {c : Call} (h : c.isFor S = true) :
    c.staysIn S = true := by
  unfold isFor at h
  unfold staysIn
  cases hv : c.target? with
  | none => rfl
  | some v =>
    rw [hv] at h
    exact h

namespace Engine

/-- What is left of a moment: a call if it is kept, a turn if its walk serves a registration that
counts. Such a walk has the number that it has among all of them. -/
def kept (K : Choice) (keeps : Call → Bool) (e : Engine) (m : Moment) : List Moment :=
  match m.move with
  | .call c => if keeps c then [m] else []
  | .turn i o heeding =>
    match e.walk? i with
    | some w => if K w.serves then [{ m with move := .turn (rank K e.served i) o heeding }] else []
    | none => [m]
  | .close => [m]

/-- The run that is left of a run. -/
def project (K : Choice) (keeps : Call → Bool) : Engine → List Moment → List Moment :=
  gather (kept K keeps)

/-- A call with its outcome. -/
abbrev Answered := Call × Except Failure Answer

/-- The call with its outcome, under other generations. -/
def Answered.renumbered (ρ : Int → Int) (a : Answered) : Answered :=
  (a.1, a.2.map (Answer.renumbered ρ))

/-- The call at a moment with its outcome, if it is one that is looked at. -/
def outcomeAt (shown : Call → Bool) (e : Engine) (m : Moment) : List Answered :=
  match m.move with
  | .call c => if shown c then [(c, (e.meet m).result)] else []
  | .turn _ _ _ | .close => []

/-- The calls of a run that are looked at, with their outcomes. -/
def outcomes (shown : Call → Bool) : Engine → List Moment → List Answered :=
  gather (outcomeAt shown)

/-- What the walk of a registration that counts asks for at a moment. -/
def asksAt (K : Choice) (e : Engine) (m : Moment) : List Effect :=
  match m.move with
  | .turn i _ _ => if (e.walk? i).any fun w => K w.serves then asked (e.meet m).effects else []
  | .call _ | .close => []

/-- What the walks of registrations that count ask for in a run: the calls of observers and the
delays. -/
def asks (K : Choice) : Engine → List Moment → List Effect := gather (asksAt K)

/-- Calls are kept as the registrations count that they are for, and only such calls are looked at
whose answers are about what counts. -/
structure Fits (K : Choice) (keeps shown : Call → Bool) (e : Engine) : Prop where
  /-- A call for an address is kept if what is registered there counts. -/
  keeps_eq : ∀ c v, c.target? = some v → keeps c = K (v, e.generationAt v)
  /-- A call for no address is kept. -/
  keeps_overview : ∀ c : Call, c.target? = none → keeps c = true
  /-- What is looked at is kept. -/
  keeps_of_shown : ∀ c, shown c = true → keeps c = true
  /-- The failures that the fault switch has caused are not looked at. -/
  not_shown_faults : shown .faults = false
  /-- Calls for no address are looked at only if all registrations count. -/
  all_of_shown : ∀ c : Call, shown c = true → c.target? = none → ∀ a g, e.IsLive a g →
    K (a, g) = true

section Moments

variable {e : Engine} {K : Choice} {keeps shown : Call → Bool} {m : Moment} {ms : List Moment}

/-- A call is left if it is kept. -/
theorem kept_call {c : Call} (hmove : m.move = .call c) :
    e.kept K keeps m = if keeps c then [m] else [] := by
  simp only [kept, hmove]

/-- The turn of a walk is left if its registration counts, under the number of the walk among those
left. -/
theorem kept_turn {i : Nat} {o : Observers} {heeding : Bool} {w : Walk}
    (hmove : m.move = .turn i o heeding) (hw : e.walk? i = some w) :
    e.kept K keeps m =
      if K w.serves then [{ m with move := .turn (rank K e.served i) o heeding }] else [] := by
  simp only [kept, hmove, hw]

/-- The turn of a walk that there is not is left. -/
theorem kept_turn_of_none {i : Nat} {o : Observers} {heeding : Bool}
    (hmove : m.move = .turn i o heeding) (hw : e.walk? i = none) : e.kept K keeps m = [m] := by
  simp only [kept, hmove, hw]

/-- The closing of the engine is left. -/
theorem kept_close (hmove : m.move = .close) : e.kept K keeps m = [m] := by
  simp only [kept, hmove]

/-- A call has its outcome at its moment. -/
theorem outcomeAt_call {c : Call} (hmove : m.move = .call c) :
    e.outcomeAt shown m = if shown c then [(c, (c.perform e m.now).result)] else [] := by
  simp only [outcomeAt, meet, hmove]

/-- Only calls are answered. -/
theorem outcomeAt_of_not_call (hm : ∀ c, m.move ≠ .call c) : e.outcomeAt shown m = [] := by
  unfold outcomeAt
  split
  · rename_i c hmove
    exact absurd hmove (hm c)
  · rfl
  · rfl

/-- A turn asks for what its walk asks for, if the registration counts. -/
theorem asksAt_turn {i : Nat} {o : Observers} {heeding : Bool}
    (hmove : m.move = .turn i o heeding) :
    e.asksAt K m = if (e.walk? i).any (fun w => K w.serves) then
      asked (e.turnOf i m.now o heeding).2 else [] := by
  simp only [asksAt, meet, hmove]

/-- Only walks ask for anything. -/
theorem asksAt_of_not_turn (hm : ∀ i o heeding, m.move ≠ .turn i o heeding) :
    e.asksAt K m = [] := by
  unfold asksAt
  split
  · rename_i i o heeding hmove
    exact absurd hmove (hm i o heeding)
  · rfl
  · rfl

end Moments

/-- The run of what is left of a run does the same where it is looked at: calls are answered alike,
and walks ask for the same. -/
structure Retraces (e' e : Engine) (K : Choice) (keeps shown : Call → Bool) (ms : List Moment)
    (ρ : Int → Int) : Prop where
  outcomes_eq : e'.outcomes shown (e.project K keeps ms) =
    (e.outcomes shown ms).map (Answered.renumbered ρ)
  asks_eq : e'.asks .all (e.project K keeps ms) = (e.asks K ms).map (Effect.renumbered ρ)

/-- Generations are never given out again in a run. -/
theorem Holds.next_le_run {e : Engine} {l : List Registration} {starts : List Start}
    (h : e.Holds l starts) (ms : List Moment) :
    e.nextGeneration ≤ (e.run ms).nextGeneration := by
  induction ms generalizing e l starts with
  | nil => exact Int.le_refl _
  | cons m ms ih =>
    obtain ⟨_, _, hstep, _, h₁⟩ := h.exists_after m
    exact Int.le_trans hstep.next_le (ih h₁)

namespace Restricts

variable {e e' : Engine} {l : List Registration} {K : Choice} {ρ : Int → Int}
  {keeps shown : Call → Bool} {m : Moment} {ms : List Moment}

/-- A request, a call that turns the fault switch, or a read. -/
private theorem kinds (c : Call) :
    c.isRequest = true ∨ (∃ enabled, c = .setFaults enabled) ∨
      ∀ (e : Engine) now, (c.perform e now).engine = e := by
  cases c with
  | addPeer | updatePeer | removePeer | setSessionError | incrementCounters => exact .inl rfl
  | setFaults enabled => exact .inr (.inl ⟨enabled, rfl⟩)
  | session | sessions | peer | peers | counts | runningConfig | statistics | walk | faults
  | describe => exact .inr (.inr fun _ _ => rfl)

/-- The answer to a request shows no generation. -/
private theorem result_renumbered {c : Call} (hc : c.isRequest = true ∨ c.target? = none)
    (e : Engine) (now : Float) :
    (c.perform e now).result.map (Answer.renumbered ρ) = (c.perform e now).result := by
  have hmap {α : Type} (answer : α → Answer) (hanswer : ∀ x, (answer x).renumbered ρ = answer x)
      (result : Except Failure α) :
      (result.map answer).map (Answer.renumbered ρ) = result.map answer := by
    cases result with
    | error f => rfl
    | ok x => exact congrArg Except.ok (hanswer x)
  cases c with
  | session | peer | walk => rcases hc with hc | hc <;> cases hc
  | addPeer | updatePeer | removePeer | setSessionError | incrementCounters | setFaults =>
    exact hmap (fun _ => .done) (fun _ => rfl) _
  | sessions => exact hmap .sessions (fun _ => rfl) _
  | statistics => exact hmap .statistics (fun _ => rfl) _
  | runningConfig => exact hmap .text (fun _ => rfl) _
  | peers | counts | faults | describe => rfl

variable (R : Restricts e' e l K ρ) (hfits : e.Fits K keeps shown)

include R hfits

/-- What is left of a call keeps one engine a part of the other. -/
private theorem run_kept_call {c : Call} (hmove : m.move = .call c) :
    ∃ ρ' l₁, AgreeBelow e.nextGeneration ρ' ρ ∧
      Restricts (e'.run (e.kept K keeps m)) (e.after m) l₁ K ρ' := by
  obtain ⟨starts, h⟩ := R.holds
  obtain ⟨l₁, starts₁, _, _, h₁⟩ := h.exists_after m
  have hrun : e'.run (e.kept K keeps m) = if keeps c then (c.perform e' m.now).engine else e' := by
    rw [kept_call hmove, ← after_call hmove]
    cases keeps c <;> rfl
  rw [after_call hmove] at h₁ ⊢
  rw [hrun]
  rcases kinds c with hrequest | ⟨enabled, rfl⟩ | hread
  · obtain ⟨v, hv⟩ := Call.exists_target hrequest
    cases hK : K (v, e.generationAt v) with
    | true =>
      obtain ⟨hboth, _⟩ := R.requested hrequest hv hK m.now ⟨l₁, starts₁, h₁⟩
      rw [if_pos ((hfits.keeps_eq c v hv).trans hK)]
      exact hboth
    | false =>
      obtain ⟨l₂, R'⟩ := R.requested_of_neg hrequest hv hK m.now ⟨l₁, starts₁, h₁⟩
      rw [if_neg (by rw [hfits.keeps_eq c v hv, hK]; exact Bool.false_ne_true)]
      exact ⟨ρ, l₂, .refl _ _, R'⟩
  · obtain ⟨l₂, R'⟩ := R.setFaults enabled ⟨l₁, starts₁, h₁⟩
    rw [if_pos (hfits.keeps_overview (.setFaults enabled) rfl)]
    exact ⟨ρ, l₂, .refl _ _, R'⟩
  · rw [hread, hread, ite_self]
    exact ⟨ρ, l, .refl _ _, R⟩

omit hfits in
/-- What is left of a turn keeps one engine a part of the other. -/
private theorem run_kept_turn {i : Nat} {o : Observers} {heeding : Bool}
    (hmove : m.move = .turn i o heeding) :
    ∃ l₁, Restricts (e'.run (e.kept K keeps m)) (e.after m) l₁ K ρ := by
  obtain ⟨starts, h⟩ := R.holds
  obtain ⟨l₁, starts₁, _, _, h₁⟩ := h.exists_after m
  rw [after_turn hmove] at h₁ ⊢
  cases hw : e.walk? i with
  | none =>
    have hrun : e'.run [m] = (e'.turnOf i m.now o heeding).1 := after_turn hmove
    rw [kept_turn_of_none hmove hw, hrun, turnOf_of_none hw, turnOf_of_none (R.walk?_eq_none hw)]
    exact ⟨l, R⟩
  | some w =>
    rw [kept_turn hmove hw]
    cases hK : K w.serves with
    | true => exact (R.turned hw hK heeding m.now o ⟨l₁, starts₁, h₁⟩).1
    | false => exact R.turned_of_neg hw hK heeding m.now o ⟨l₁, starts₁, h₁⟩

/-- What is left of a moment keeps one engine a part of the other. -/
theorem run_kept (m : Moment) :
    ∃ ρ' l₁, AgreeBelow e.nextGeneration ρ' ρ ∧
      Restricts (e'.run (e.kept K keeps m)) (e.after m) l₁ K ρ' := by
  obtain ⟨starts, h⟩ := R.holds
  cases hmove : m.move with
  | call c => exact R.run_kept_call hfits hmove
  | turn i o heeding =>
    obtain ⟨l₁, R'⟩ := R.run_kept_turn hmove
    exact ⟨ρ, l₁, .refl _ _, R'⟩
  | close =>
    obtain ⟨l₁, starts₁, _, _, h₁⟩ := h.exists_after m
    have hrun : e'.run [m] = e'.close.1 := after_close hmove
    rw [after_close hmove] at h₁ ⊢
    rw [kept_close hmove, hrun]
    obtain ⟨l₂, R'⟩ := R.closed ⟨l₁, starts₁, h₁⟩
    exact ⟨ρ, l₂, .refl _ _, R'⟩

/-- A call that is looked at is answered alike. -/
private theorem result_perform {c : Call} (hshown : shown c = true) (now : Float)
    (hholds : ∃ l₁ starts, (c.perform e now).engine.Holds l₁ starts) :
    (c.perform e' now).result = (c.perform e now).result.map (Answer.renumbered ρ) := by
  obtain ⟨starts, h⟩ := R.holds
  cases hv : c.target? with
  | some v =>
    have hK : K (v, e.generationAt v) = true :=
      (hfits.keeps_eq c v hv).symm.trans (hfits.keeps_of_shown c hshown)
    cases hrequest : c.isRequest with
    | true => rw [result_renumbered (.inl hrequest), (R.requested hrequest hv hK now hholds).2]
    | false => exact R.read_answered hrequest hv hK now
  | none =>
    have hfaults : c ≠ .faults := by
      rintro rfl
      rw [hfits.not_shown_faults] at hshown
      cases hshown
    have hall (r : Registration) (hr : r ∈ l) : K r.start.values = true :=
      hfits.all_of_shown c hshown hv _ _ (h.isLive_iff.mpr ⟨r, h.at?_of_mem hr, rfl⟩)
    rw [result_renumbered (.inr hv), R.overview_answered hall hv hfaults now]

/-- What is left of a moment is answered alike. -/
private theorem outcomes_kept (m : Moment) :
    e'.outcomes shown (e.kept K keeps m) = (e.outcomeAt shown m).map (Answered.renumbered ρ) := by
  obtain ⟨starts, h⟩ := R.holds
  obtain ⟨l₁, starts₁, _, _, h₁⟩ := h.exists_after m
  rw [outcomes]
  cases hmove : m.move with
  | call c =>
    rw [after_call hmove] at h₁
    rw [kept_call hmove, outcomeAt_call hmove]
    cases hshown : shown c with
    | true =>
      have hanswer := R.result_perform hfits hshown m.now ⟨l₁, starts₁, h₁⟩
      rw [if_pos (hfits.keeps_of_shown c hshown), gather_singleton, outcomeAt_call hmove, hshown,
        hanswer]
      rfl
    | false =>
      cases keeps c with
      | false => rfl
      | true =>
        rw [if_pos rfl, gather_singleton, outcomeAt_call hmove, hshown]
        rfl
  | turn i o heeding =>
    rw [outcomeAt_of_not_call (m := m) (by simp [hmove])]
    cases hw : e.walk? i with
    | none =>
      rw [kept_turn_of_none hmove hw, gather_singleton]
      exact outcomeAt_of_not_call (by simp [hmove])
    | some w =>
      rw [kept_turn hmove hw]
      cases K w.serves <;> rfl
  | close =>
    rw [outcomeAt_of_not_call (m := m) (by simp [hmove]), kept_close hmove, gather_singleton]
    exact outcomeAt_of_not_call (by simp [hmove])

omit hfits in
/-- At what is left of a moment the walks ask for the same. -/
private theorem asks_kept (m : Moment) :
    e'.asks .all (e.kept K keeps m) = (e.asksAt K m).map (Effect.renumbered ρ) := by
  obtain ⟨starts, h⟩ := R.holds
  obtain ⟨l₁, starts₁, _, _, h₁⟩ := h.exists_after m
  rw [asks]
  cases hmove : m.move with
  | call c =>
    rw [asksAt_of_not_turn (m := m) (by simp [hmove]), kept_call hmove]
    cases keeps c with
    | false => rfl
    | true =>
      rw [if_pos rfl, gather_singleton]
      exact asksAt_of_not_turn (by simp [hmove])
  | turn i o heeding =>
    rw [after_turn hmove] at h₁
    rw [asksAt_turn hmove]
    cases hw : e.walk? i with
    | none =>
      rw [kept_turn_of_none hmove hw, gather_singleton, asksAt_turn hmove, R.walk?_eq_none hw]
      rfl
    | some w =>
      rw [kept_turn hmove hw]
      cases hK : K w.serves with
      | false => simp [hK]
      | true =>
        have hboth := (R.turned hw hK heeding m.now o ⟨l₁, starts₁, h₁⟩).2
        rw [if_pos rfl, gather_singleton, asksAt_turn rfl, R.walk?_eq hw hK]
        simp [hK, Choice.all, hboth]
  | close =>
    rw [asksAt_of_not_turn (m := m) (by simp [hmove]), kept_close hmove, gather_singleton]
    exact asksAt_of_not_turn (by simp [hmove])

omit hfits in
/-- The run of what is left keeps one engine a part of the other and does the same, also under
numbers for generations that are given out later. -/
theorem run_project (ms : List Moment)
    (hfits : ∀ before m rest, ms = before ++ m :: rest → (e.run before).Fits K keeps shown) :
    ∃ ρ' l₁, AgreeBelow e.nextGeneration ρ' ρ ∧
      Restricts (e'.run (e.project K keeps ms)) (e.run ms) l₁ K ρ' ∧
      ∀ ρ'', AgreeBelow (e.run ms).nextGeneration ρ'' ρ' → Retraces e' e K keeps shown ms ρ'' := by
  induction ms generalizing e e' l ρ with
  | nil => exact ⟨ρ, l, .refl _ _, R, fun _ _ => ⟨rfl, rfl⟩⟩
  | cons m ms ih =>
    have hfirst : e.Fits K keeps shown := hfits [] m ms rfl
    have hrest (before : List Moment) (n : Moment) (rest : List Moment)
        (hms : ms = before ++ n :: rest) : ((e.after m).run before).Fits K keeps shown :=
      hfits (m :: before) n rest (by rw [hms]; rfl)
    obtain ⟨starts, h⟩ := R.holds
    obtain ⟨_, _, hstep, _, h₁⟩ := h.exists_after m
    obtain ⟨ρ₁, l₁, hρ₁, R₁⟩ := R.run_kept hfirst m
    obtain ⟨ρ', l₂, hρ', R₂, hretraces⟩ := ih R₁ hrest
    have hagree : AgreeBelow e.nextGeneration ρ' ρ := hρ'.trans hρ₁ hstep.next_le
    have hproject : e.project K keeps (m :: ms) =
        e.kept K keeps m ++ (e.after m).project K keeps ms := rfl
    refine ⟨ρ', l₂, hagree, ?_, fun ρ'' hρ'' => ?_⟩
    · rw [hproject, run_append]
      exact R₂
    -- what happens at the moment may be read under the generations of the whole run
    have R' := R.congr (hρ''.trans hagree (Int.le_trans hstep.next_le (h₁.next_le_run ms)))
    obtain ⟨houtcomes, hasks⟩ := hretraces ρ'' hρ''
    constructor
    · have happend := gather_append (outcomeAt shown) e' (e.kept K keeps m)
        ((e.after m).project K keeps ms)
      rw [hproject]
      exact happend.trans ((congrArg₂ _ (R'.outcomes_kept hfirst m) houtcomes).trans
        List.map_append.symm)
    · have happend := gather_append (asksAt .all) e' (e.kept K keeps m)
        ((e.after m).project K keeps ms)
      rw [hproject]
      exact happend.trans ((congrArg₂ _ (R'.asks_kept m) hasks).trans List.map_append.symm)

end Restricts

section Whole

variable {e : Engine} {l : List Registration} {starts : List Start} {K : Choice}

/-- An engine on which everything counts is a part of itself. -/
theorem Holds.restricts_self (h : e.Holds l starts) (hK : ∀ p ∈ e.served, K p = true) :
    Restricts e e l K id := by
  have hvalue (v : Value) : v.renumbered id = v := by cases v <;> rfl
  constructor
  case holds => exact ⟨starts, h⟩
  case registry_eq =>
    have hfilter : l.filter (fun r => K r.start.values) = l :=
      List.filter_eq_self.mpr fun r hr => hK _ (h.mem_served hr)
    have hmap : l.map (Registration.renumbered id) = l := List.map_id l
    rw [Registration.select, hfilter, hmap]
    exact h.registry_eq
  case walks_eq =>
    have hfilter : e.walks.filter (fun w => K w.serves) = e.walks :=
      List.filter_eq_self.mpr fun w hw => hK _ (List.mem_map_of_mem hw)
    have hwalk (w : Walk) : w.renumbered id = w := by rw [Walk.renumbered, hvalue]
    rw [Walk.select, hfilter, funext hwalk, List.map_id']
  case walkOf_eq =>
    have hfilter : e.walkOf.filter (fun entry => (e.served[entry.2]?).any K) = e.walkOf :=
      List.filter_eq_self.mpr fun _ => h.any_served fun r hr => hK _ (h.mem_served hr)
    rw [Table.select, hfilter]
    symm
    refine (List.map_congr_left fun entry hentry => ?_).trans (List.map_id _)
    rw [rank_eq_self hK (Nat.le_of_lt (h.walkOf_lt hentry)), id]
  case settings => exact .refl e
  case increasing => exact fun _ _ _ _ hlt => hlt
  case fresh => exact fun g hg => h.generations_lt hg

/-- Where everything counts and every call is kept, the whole run is left. -/
theorem project_all (e : Engine) (ms : List Moment) :
    e.project .all (fun _ => true) ms = ms := by
  induction ms generalizing e with
  | nil => rfl
  | cons m ms ih =>
    have hkept : e.kept .all (fun _ => true) m = [m] := by
      cases hmove : m.move with
      | call c => rw [kept_call hmove, if_pos rfl]
      | close => rw [kept_close hmove]
      | turn i o heeding =>
        cases hw : e.walk? i with
        | none => rw [kept_turn_of_none hmove hw]
        | some w =>
          have hi : i ≤ e.served.length := by
            rw [served, List.length_map]
            exact Nat.le_of_lt (List.getElem?_eq_some_iff.mp hw).1
          have hrank : rank Choice.all e.served i = i := rank_eq_self (fun _ _ => rfl) hi
          rw [kept_turn hmove hw, hrank, ← hmove]
          rfl
    exact congrArg₂ _ hkept (ih (e.after m))

end Whole

end Engine

end Peering
