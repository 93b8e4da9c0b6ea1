import Peering.Proofs.Selection

/-!
# Turns of a walk under another generation

Of the registry a walk looks at nothing but the session that is live for it, and it writes no other.
So a walk that goes by another generation, on a registry in which the same session is live for it,
takes the same turns: it writes the same session, ends in the same phase and asks for the same.
-/

namespace Peering

/-- Nothing is asked for by no effects. -/
@[simp] theorem asked_nil : asked [] = [] := rfl

/-- What is asked for is asked for one after the other. -/
@[simp] theorem asked_append (l m : List Effect) : asked (l ++ m) = asked l ++ asked m :=
  List.filter_append _ _

/-- A report asks for nothing. -/
@[simp] theorem asked_walk_report (w : Walk) (level : Level) (text : String) (l : List Effect) :
    asked (w.report level text :: l) = asked l := rfl

/-- The registry with a session written at an address, if there is one to write. -/
def Registry.written (r : Registry) (address : Value) : Option Session → Registry
  | none => r
  | some s => r.setSession address s

/-- A session is written in the list of registrations, if there is one to write it in. -/
theorem Registry.written_ofList {l : List Registration} {v : Value} {s? : Option Session}
    (h : s?.isSome = true → ∃ r, Registration.at? l v = some r) :
    (Registry.ofList l).written v s? = .ofList (Registration.rewritten l v s?) := by
  cases s? with
  | none => rfl
  | some s =>
    obtain ⟨r, hr⟩ := h rfl
    exact Registry.setSession_of_some hr s

/-- The second turn leaves the same walk behind as the first, but for its generation, and asks for
the same. -/
structure Turn.Alike (ρ : Int → Int) (t' t : Turn) : Prop where
  walk_eq : t'.walk = t.walk.renumbered ρ
  asked_eq : asked t'.effects = (asked t.effects).map (Effect.renumbered ρ)

namespace Walk

variable {w : Walk} {r r' : Registry} {ρ : Int → Int}

/-- The session that a step after the delay writes, if it writes one. -/
def moves? (w : Walk) (r : Registry) (now : Float) : Option Session :=
  match r.live? w.address w.generation with
  | .ok (some s) => some (s.advance now).1
  | .ok none | .error _ => none

/-- The session that a turn of the walk writes, if it writes one. -/
def writes? (w : Walk) (heeding : Bool) (r : Registry) (now : Float) : Option Session :=
  match heeding && w.stopping, w.phase with
  | false, .asleep => w.moves? r now
  | _, _ => none

/-- A step writes the session that it moves. -/
theorem step_registry (w : Walk) (r : Registry) (now : Float) (o : Observers) :
    (w.step r now o).registry = r.written w.address (w.moves? r now) := by
  unfold step moves?
  cases r.live? w.address w.generation with
  | error f => rfl
  | ok found =>
    cases found with
    | none => rfl
    | some s =>
      rcases hmoved : s.advance now with ⟨moved, f | state⟩
      · simp only [hmoved]
        rfl
      · simp only [hmoved, registry_after, notify_registry]
        rfl

/-- A turn writes what it is said to write, at the address of the walk. -/
theorem turnWith_registry (w : Walk) (heeding : Bool) (r : Registry) (now : Float)
    (o : Observers) :
    (w.turnWith heeding r now o).registry = r.written w.address (w.writes? heeding r now) := by
  have hresume : (w.resume r now o).registry = r.written w.address
      (match w.phase with
        | .asleep => w.moves? r now
        | _ => none) := by
    unfold resume
    cases w.phase with
    | scheduled => exact (w.lookAhead_quiet r).registry_eq
    | asleep => exact w.step_registry r now o
    | observing rest n => exact w.goOn_registry r o rest n
    | ended | calledOff | failed => rfl
  unfold turnWith turn writes?
  cases heeding with
  | false =>
    rw [if_neg Bool.false_ne_true, hresume]
    cases w.phase <;> rfl
  | true =>
    cases hstopping : w.stopping with
    | false =>
      rw [if_pos rfl, if_neg Bool.false_ne_true, hresume]
      cases w.phase <;> rfl
    | true =>
      rw [if_pos rfl, if_pos rfl, (w.halt_quiet r).registry_eq]
      cases w.phase <;> rfl

/-- A turn writes only if a session is live for the walk, and it moves that session. -/
theorem live?_of_writes {heeding : Bool} {now : Float} {s : Session}
    (hs : w.writes? heeding r now = some s) :
    ∃ s₀, r.live? w.address w.generation = .ok (some s₀) ∧ s = (s₀.advance now).1 := by
  have hmoves : w.moves? r now = some s := by
    unfold writes? at hs
    split at hs
    · exact hs
    · cases hs
  unfold moves? at hmoves
  split at hmoves
  · rename_i s₀ hlive
    exact ⟨s₀, hlive, (Option.some.inj hmoves).symm⟩
  · cases hmoves
  · cases hmoves

section Alike

variable (hlive : r'.live? w.address (w.generation.renumbered ρ) = r.live? w.address w.generation)

include hlive in
/-- Which session is moved does not depend on the generation. -/
theorem moves?_renumbered (now : Float) : (w.renumbered ρ).moves? r' now = w.moves? r now := by
  have hlive' : r'.live? (w.renumbered ρ).address (w.renumbered ρ).generation =
      r.live? w.address w.generation := hlive
  rw [moves?, hlive', moves?]

include hlive in
/-- Which session is written does not depend on the generation. -/
theorem writes?_renumbered (heeding : Bool) (now : Float) :
    (w.renumbered ρ).writes? heeding r' now = w.writes? heeding r now := by
  have hmoves := moves?_renumbered hlive now
  have hstopping : (w.renumbered ρ).stopping = w.stopping := rfl
  have hphase : (w.renumbered ρ).phase = w.phase := rfl
  rw [writes?, writes?, hmoves, hstopping, hphase]

include hlive in
/-- Two walks that differ in generations only look ahead alike. -/
theorem lookAhead_alike : ((w.renumbered ρ).lookAhead r').Alike ρ (w.lookAhead r) := by
  have hlive' : r'.live? (w.renumbered ρ).address (w.renumbered ρ).generation =
      r.live? w.address w.generation := hlive
  unfold lookAhead
  rw [hlive']
  cases r.live? w.address w.generation with
  | error f => exact ⟨rfl, rfl⟩
  | ok found =>
    cases found with
    | none => exact ⟨rfl, rfl⟩
    | some s =>
      cases hs : s.isEstablished with
      | true =>
        simp only [hs, if_true]
        exact ⟨rfl, rfl⟩
      | false =>
        simp only [hs, Bool.false_eq_true, if_false]
        exact ⟨rfl, rfl⟩

/-- The observers are told the same, but for the generation. -/
theorem tell_alike (w : Walk) (ρ : Int → Int) (o : Observers) (n : Notice) (l : List Stage) :
    ((w.renumbered ρ).tell o n l).1 = (w.tell o n l).1 ∧
      asked ((w.renumbered ρ).tell o n l).2 =
        (asked (w.tell o n l).2).map (Effect.renumbered ρ) := by
  have hcall (stage : Stage) (l : List Effect) :
      asked ((w.renumbered ρ).call n stage :: l) =
        (w.call n stage).renumbered ρ :: asked l := by
    cases stage <;> rfl
  have hcall' (stage : Stage) (l : List Effect) :
      asked (w.call n stage :: l) = w.call n stage :: asked l := by
    cases stage <;> rfl
  induction l with
  | nil => exact ⟨rfl, rfl⟩
  | cons stage rest ih =>
    obtain ⟨htold, hasked⟩ := ih
    unfold tell
    rcases reply? o stage with _ | _ | message | seconds | _
    · exact ⟨htold, hasked⟩
    · refine ⟨htold, ?_⟩
      simp only [hcall, hcall', hasked, List.map_cons]
    · refine ⟨rfl, ?_⟩
      simp [hcall, hcall', callbackFailed]
    · refine ⟨rfl, ?_⟩
      simp only [hcall, hcall', List.map_cons]
      rfl
    · refine ⟨rfl, ?_⟩
      simp only [hcall, hcall', List.map_cons]
      rfl

include hlive in
/-- Two walks that differ in generations only go on alike after a notice. -/
theorem proceed_alike (n : Notice) (told : Telling) :
    ((w.renumbered ρ).proceed r' n told).Alike ρ (w.proceed r n told) := by
  unfold proceed
  cases told with
  | upTo rest => exact ⟨rfl, rfl⟩
  | calledOff => exact ⟨rfl, rfl⟩
  | all =>
    by_cases hnew : n.new = .established
    · simp only [hnew, if_true]
      exact ⟨rfl, rfl⟩
    · simp only [hnew, if_false]
      exact lookAhead_alike hlive

include hlive in
/-- Two walks that differ in generations only notify observers alike. -/
theorem notify_alike (o : Observers) (n : Notice) (l : List Stage) :
    ((w.renumbered ρ).notify r' o n l).Alike ρ (w.notify r o n l) := by
  obtain ⟨htold, hasked⟩ := w.tell_alike ρ o n l
  obtain ⟨hwalk, hrest⟩ := proceed_alike hlive n (w.tell o n l).1
  constructor
  · simp only [notify, htold]
    exact hwalk
  · simp only [notify, effects_after, asked_append, List.map_append, htold, hasked, hrest]

include hlive in
/-- Two walks that differ in generations only go on alike when an observer returns. -/
theorem goOn_alike (o : Observers) (rest : List Stage) (n : Notice) :
    ((w.renumbered ρ).goOn r' o rest n).Alike ρ (w.goOn r o rest n) := by
  unfold goOn
  cases o.resumed with
  | returned => exact notify_alike hlive o n rest
  | raised message =>
    obtain ⟨hwalk, hasked⟩ := proceed_alike hlive n .all
    exact ⟨hwalk, by simpa [callbackFailed] using hasked⟩
  | suspended seconds => exact ⟨rfl, rfl⟩
  | cancelled => exact proceed_alike hlive n .calledOff

/-- After a step the walk looks at the session that it has written, so this one must be live for it
on both registries too. -/
theorem step_alike (now : Float) (o : Observers)
    (hlive : r'.live? w.address (w.generation.renumbered ρ) = r.live? w.address w.generation)
    (hmoved : ∀ s, w.moves? r now = some s →
      (r'.setSession w.address s).live? w.address (w.generation.renumbered ρ) =
        (r.setSession w.address s).live? w.address w.generation) :
    ((w.renumbered ρ).step r' now o).Alike ρ (w.step r now o) := by
  have hlive' : r'.live? (w.renumbered ρ).address (w.renumbered ρ).generation =
      r.live? w.address w.generation := hlive
  unfold moves? at hmoved
  unfold step
  rw [hlive']
  cases hfound : r.live? w.address w.generation with
  | error f => exact ⟨rfl, rfl⟩
  | ok found =>
    cases found with
    | none => exact ⟨rfl, rfl⟩
    | some s =>
      rw [hfound] at hmoved
      rcases hadvance : s.advance now with ⟨moved, f | state⟩
      · simp only [hadvance]
        exact ⟨rfl, rfl⟩
      · simp only [hadvance] at hmoved ⊢
        obtain ⟨hwalk, hasked⟩ := notify_alike (w := { w with written := state })
          (hmoved moved rfl) o ⟨s.state, state⟩ (stages state)
        refine ⟨hwalk, ?_⟩
        simp only [effects_after, List.singleton_append, asked_walk_report]
        exact hasked

/-- Two walks that differ in generations only are halted alike. -/
theorem halt_alike (w : Walk) (ρ : Int → Int) (r r' : Registry) :
    ((w.renumbered ρ).halt r').Alike ρ (w.halt r) := by
  have hphase : (w.renumbered ρ).phase = w.phase := rfl
  unfold halt
  rw [hphase]
  cases w.phase <;> exact ⟨rfl, rfl⟩

include hlive in
/-- A walk under another generation takes the same turns. -/
theorem turnWith_alike (heeding : Bool) (now : Float) (o : Observers)
    (hmoved : ∀ s, w.writes? heeding r now = some s →
      (r'.setSession w.address s).live? w.address (w.generation.renumbered ρ) =
        (r.setSession w.address s).live? w.address w.generation) :
    ((w.renumbered ρ).turnWith heeding r' now o).Alike ρ (w.turnWith heeding r now o) := by
  have hphase : (w.renumbered ρ).phase = w.phase := rfl
  have hstopping : (w.renumbered ρ).stopping = w.stopping := rfl
  have hresume (hheeded : (heeding && w.stopping) = false) :
      ((w.renumbered ρ).resume r' now o).Alike ρ (w.resume r now o) := by
    unfold resume
    rw [hphase]
    cases hw : w.phase with
    | scheduled => exact lookAhead_alike hlive
    | asleep =>
      refine step_alike now o hlive fun s hs => hmoved s ?_
      rw [writes?, hheeded, hw, hs]
    | observing rest n => exact goOn_alike hlive o rest n
    | ended | calledOff | failed => exact ⟨rfl, rfl⟩
  unfold turnWith turn
  rw [hstopping]
  cases heeding with
  | false => exact hresume rfl
  | true =>
    cases hstop : w.stopping with
    | false => exact hresume (by rw [hstop]; rfl)
    | true => exact w.halt_alike ρ r r'

end Alike

end Walk

namespace Engine

open Registration

variable {e : Engine} {l : List Registration} {starts : List Start} {w : Walk} {heeding : Bool}
  {now : Float}

/-- A turn that writes moves the session of the registration that the walk serves. -/
theorem Holds.registration_of_writes (h : e.Holds l starts) (hw : w ∈ e.walks) {s : Session}
    (hs : w.writes? heeding e.registry now = some s) :
    ∃ r, at? l w.address = some r ∧ r.start.values = w.serves ∧ s = (r.session.advance now).1 := by
  obtain ⟨i, hi⟩ := List.mem_iff_getElem?.mp hw
  obtain ⟨start, _, haddress, hgeneration⟩ := h.start_of_walk hi
  obtain ⟨s₀, hlive, hs₀⟩ := Walk.live?_of_writes hs
  rw [h.registry_eq, haddress, hgeneration, Registry.live?_ofList] at hlive
  obtain ⟨r, hfilter, hsession⟩ := Option.map_eq_some_iff.mp (Except.ok.inj hlive)
  obtain ⟨hr, hg⟩ := Option.filter_eq_some_iff.mp hfilter
  have hra : start.address = r.address := Value.text.inj (mem_of_at? hr).2
  have hrg : r.generation = start.generation := by simpa using hg
  refine ⟨r, haddress ▸ hr, ?_, hsession ▸ hs₀⟩
  rw [Walk.serves, haddress, hgeneration, hra, ← hrg]
  rfl

/-- What a turn leaves behind of the registrations. -/
theorem Holds.registry_turn (h : e.Holds l starts) (hw : w ∈ e.walks) (heeding : Bool)
    (now : Float) (o : Observers) :
    (w.turnWith heeding e.registry now o).registry =
      .ofList (rewritten l w.address (w.writes? heeding e.registry now)) := by
  rw [Walk.turnWith_registry]
  nth_rewrite 1 [h.registry_eq]
  refine Registry.written_ofList fun hsome => ?_
  obtain ⟨s, hs⟩ := Option.isSome_iff_exists.mp hsome
  obtain ⟨r, hr, _⟩ := h.registration_of_writes hw hs
  exact ⟨r, hr⟩

end Engine

end Peering
