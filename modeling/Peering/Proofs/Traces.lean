import Peering.Proofs.Restriction
import Peering.Proofs.Standing
import Mathlib.Data.List.Induction

/-!
# What is done for one registration

Of all that a run does to the world outside, some is done for one registration: its observers are
called, and its delays are asked for. All of this is done in turns of the walk that was started for
it. Before there is such a walk, nothing is done.
-/

namespace Peering

open Registration

/-- The effect is about a registration. -/
def Effect.isAbout (address generation : Value) (f : Effect) : Bool :=
  f.about?.any fun p => address.eqv p.1 && generation.eqv p.2

/-- A turn that is given to a walk. -/
structure Visit where
  /-- The walk before the turn. -/
  walk : Walk
  /-- What the observers do at the turn. -/
  observers : Observers
  /-- A pending cancellation reaches the walk. -/
  heeding : Bool

/-- The delay between two states that the walk sleeps for has passed. -/
def Visit.wakes (v : Visit) : Bool := v.walk.isAsleep && !(v.heeding && v.walk.stopping)

namespace Engine

/-- What a moment does for a registration. -/
def doneFor (address generation : Value) (e : Engine) (m : Moment) : List Effect :=
  (e.meet m).effects.filter (Effect.isAbout address generation)

/-- What a run does for a registration, in order. -/
def traceOf (address generation : Value) : Engine → List Moment → List Effect :=
  gather (doneFor address generation)

/-- The turn that a moment gives to the walk of a registration, if it gives one. -/
def visitsAt (address generation : Value) (e : Engine) (m : Moment) : List Visit :=
  match m.move with
  | .turn i observers heeding =>
    match e.walk? i with
    | some walk =>
      if address.eqv walk.address && generation.eqv walk.generation then
        [{ walk, observers, heeding }]
      else []
    | none => []
  | .call _ | .close => []

/-- The turns that a run gives to the walk of a registration, in order. -/
def visits (address generation : Value) : Engine → List Moment → List Visit :=
  gather (visitsAt address generation)

variable {e : Engine} {l : List Registration} {starts : List Start} {m : Moment}
  {ms : List Moment} {i : Nat} {w : Walk} {o : Observers} {heeding : Bool} {a : String} {g : Int}

/-- The effects that a function reads nothing from may be left out. -/
private theorem filterMap_filter_of {α β : Type} {f : α → Option β} {p : α → Bool} {l : List α}
    (h : ∀ x ∈ l, (f x).isSome = true → p x = true) : (l.filter p).filterMap f = l.filterMap f := by
  rw [List.filterMap_filter]
  apply List.filterMap_congr
  intro x hx
  by_cases hp : p x = true
  · rw [if_pos hp]
  · have hnone : f x = none := by
      rw [← Option.not_isSome_iff_eq_none]
      exact fun hsome => hp (h x hx hsome)
    rw [if_neg hp, hnone]

/-- What requests do is about no registration of a walk. -/
theorem about?_of_isOfRequest {f : Effect} (hf : f.isOfRequest = true) : f.about? = none := by
  cases f <;> first | rfl | cases hf

namespace Holds

/-- A walk is compared with a registration by what it serves. -/
theorem serves_iff (h : e.Holds l starts) (hw : e.walk? i = some w) :
    ((Value.text a).eqv w.address && (Value.int g).eqv w.generation) = true ↔
      w.serves = (.text a, .int g) := by
  obtain ⟨s, _, haddress, hgeneration⟩ := h.start_of_walk hw
  rw [Walk.serves, haddress, hgeneration, Value.text_eqv_text, Value.int_eqv_int, Bool.and_eq_true,
    beq_iff_eq, beq_iff_eq, Prod.mk.injEq, Value.text.injEq, Value.int.injEq]
  constructor
  · rintro ⟨rfl, rfl⟩
    exact ⟨rfl, rfl⟩
  · rintro ⟨rfl, rfl⟩
    exact ⟨rfl, rfl⟩

/-- The effects of a turn are about a registration if the walk serves it. -/
theorem isAbout_of_turn (h : e.Holds l starts) (hw : e.walk? i = some w) {f : Effect}
    (hf : f ∈ (w.turnWith heeding e.registry m.now o).effects) :
    f.isAbout (.text a) (.int g) = true ↔
      f.about?.isSome = true ∧ w.serves = (.text a, .int g) := by
  have habout := (w.turnWith_isOf heeding e.registry m.now o).about f hf
  cases hp : f.about? with
  | none => simp [Effect.isAbout, hp]
  | some p =>
    obtain rfl := habout p hp
    rw [Effect.isAbout, hp, Option.any_some]
    exact (h.serves_iff hw).trans (by simp)

/-- Nothing is done for a registration but in turns of its walk. -/
theorem doneFor_of_not_hasTurn (h : e.Holds l starts)
    (hturn : ¬e.HasTurn m (.text a) (.int g)) : e.doneFor (.text a) (.int g) m = [] := by
  have hrequest {effects : List Effect} (heffects : effects.all Effect.isOfRequest = true) :
      effects.filter (Effect.isAbout (.text a) (.int g)) = [] := by
    rw [List.filter_eq_nil_iff]
    intro f hf
    rw [Effect.isAbout, about?_of_isOfRequest (List.all_eq_true.mp heffects f hf)]
    simp
  unfold doneFor
  cases hmove : m.move with
  | call c =>
    rw [meet_call hmove]
    exact hrequest (isOfRequest_perform c m.now)
  | turn i o heeding =>
    rw [meet_turn hmove]
    cases hw : e.walk? i with
    | none =>
      rw [turnOf_of_none hw]
      rfl
    | some w =>
      rw [turnOf_of_some hw, List.filter_eq_nil_iff]
      intro f hf habout
      obtain ⟨_, hserves⟩ := (h.isAbout_of_turn hw hf).mp habout
      obtain ⟨haddress, hgeneration⟩ := Prod.mk.inj hserves
      exact hturn ⟨i, o, heeding, w, hmove, hw, haddress, hgeneration⟩
  | close =>
    rw [meet_close hmove]
    exact hrequest (Roster.cancelAll_eq e.toRoster e.walkOf.values).2.2

/-- A walk that has no turn has no visit. -/
theorem visitsAt_of_not_hasTurn (h : e.Holds l starts)
    (hturn : ¬e.HasTurn m (.text a) (.int g)) : e.visitsAt (.text a) (.int g) m = [] := by
  unfold visitsAt
  split
  · rename_i i o heeding hmove
    split
    · rename_i w hw
      split
      · rename_i heqv
        obtain ⟨haddress, hgeneration⟩ := Prod.mk.inj ((h.serves_iff hw).mp heqv)
        exact absurd ⟨i, o, heeding, w, hmove, hw, haddress, hgeneration⟩ hturn
      · rfl
    · rfl
  · rfl
  · rfl

/-- The delays that are asked for in a turn of its walk are asked for the registration. -/
theorem turn_sleepsIn (h : e.Holds l starts) (hmove : m.move = .turn i o heeding)
    (hw : e.walk? i = some w) (hserves : w.serves = (.text a, .int g)) :
    sleepsIn (e.doneFor (.text a) (.int g) m) =
      (w.turnWith heeding e.registry m.now o).walk.naps := by
  have heffects : (e.meet m).effects = (w.turnWith heeding e.registry m.now o).effects := by
    rw [meet_turn hmove, turnOf_of_some hw]
  rw [← (w.turnWith_isOf heeding e.registry m.now o).sleeps_eq, ← heffects]
  refine filterMap_filter_of fun f hf hsleep => ?_
  rw [heffects] at hf
  have hsome : f.about?.isSome = true := by
    cases f <;> first | rfl | cases hsleep
  exact (h.isAbout_of_turn hw hf).mpr ⟨hsome, hserves⟩

/-- The turn of a walk is one visit of it. -/
theorem turn_visitsAt (h : e.Holds l starts) (hmove : m.move = .turn i o heeding)
    (hw : e.walk? i = some w) (hserves : w.serves = (.text a, .int g)) :
    e.visitsAt (.text a) (.int g) m = [{ walk := w, observers := o, heeding }] := by
  simp only [visitsAt, hmove, hw, (h.serves_iff hw).mpr hserves, if_true]

end Holds

/-- What walks were started for is not forgotten. -/
theorem Holds.served_prefix (h : e.Holds l starts) (m : Moment) :
    e.served <+: (e.after m).served := by
  obtain ⟨l', starts', _, hgrows, h'⟩ := h.exists_after m
  rw [h.served_eq, h'.served_eq]
  exact hgrows.map Start.values

/-- Along a run in which no walk is started for a registration, nothing is gathered from turns of
such a walk. -/
theorem Reachable.gather_of_not_served {α : Type} {f : Engine → Moment → List α}
    (he : e.Reachable)
    (hf : ∀ {e l starts m}, Holds e l starts → ¬e.HasTurn m (.text a) (.int g) → f e m = [])
    (hout : (.text a, .int g) ∉ (e.run ms).served) : e.gather f ms = [] := by
  induction ms using List.reverseRecOn with
  | nil => rfl
  | append_singleton ms m ih =>
    obtain ⟨l, starts, h⟩ := (he.run ms).exists_holds
    rw [run_concat] at hout
    have hbefore : (.text a, .int g) ∉ (e.run ms).served :=
      fun hmem => hout ((h.served_prefix m).subset hmem)
    have hturn : ¬(e.run ms).HasTurn m (.text a) (.int g) := by
      rintro ⟨i, o, heeding, w, _, hw, haddress, hgeneration⟩
      have hserves : w.serves = (.text a, .int g) := Prod.ext haddress hgeneration
      exact hbefore (hserves ▸ List.mem_map_of_mem (List.mem_of_getElem? hw))
    rw [gather_concat, ih hbefore, hf h hturn]
    rfl

end Engine

end Peering
