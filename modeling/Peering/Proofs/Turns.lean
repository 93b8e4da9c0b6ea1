import Peering.Schedule.Free

/-!
# What a turn of a walk does

Between two suspensions a walk writes at most one session, and it calls the observer of state
changes only together with such a write. Both happen in the same turn as the check that its
registration is the live one, and both are for that registration. All other turns are quiet.
-/

namespace Peering

/-- The call of the observer of state changes, if the effect is one. -/
def Effect.change? : Effect → Option (Value × Value × StateCode × State)
  | .changed address generation old new => some (address, generation, old, new)
  | _ => none

/-- The calls of the observer of state changes, in order. -/
def changesIn (effects : List Effect) : List (Value × Value × StateCode × State) :=
  effects.filterMap Effect.change?

/-- No effects tell of no changes. -/
@[simp] theorem changesIn_nil : changesIn [] = [] := rfl

/-- The changes told by effects come one after the other. -/
@[simp] theorem changesIn_append (l m : List Effect) :
    changesIn (l ++ m) = changesIn l ++ changesIn m :=
  List.filterMap_append

/-- A report tells of no change. -/
@[simp] theorem changesIn_walk_report (w : Walk) (level : Level) (text : String)
    (l : List Effect) : changesIn (w.report level text :: l) = changesIn l := rfl

/-- A pause tells of no change. -/
@[simp] theorem changesIn_pause (a g : Value) (x : Float) (l : List Effect) :
    changesIn (.pause a g x :: l) = changesIn l := rfl

/-- The turn writes no session and calls no observer of state changes. -/
structure Turn.Quiet (t : Turn) (r : Registry) : Prop where
  registry_eq : t.registry = r
  changes_eq : changesIn t.effects = []

/-- The turn writes the session of the walk's registration, which is the live one. The observer
of state changes, if it is set, is told of the state that has been entered. -/
structure Turn.Writes (t : Turn) (w : Walk) (r : Registry) (now : Float) (o : Observers)
    (s : Session) : Prop where
  asleep : w.phase = .asleep
  live : r.live? w.address w.generation = .ok (some s)
  registry_eq : t.registry = r.setSession w.address (s.advance now).1
  changes_eq : changesIn t.effects = match (s.advance now).2 with
    | .ok new => if o.stateChange.isSome then [(w.address, w.generation, s.state, new)] else []
    | .error _ => []

namespace Walk

/-- The walk is a later stage of another one. -/
structure Continues (w' w : Walk) : Prop where
  address_eq : w'.address = w.address
  generation_eq : w'.generation = w.generation
  delay_eq : w'.delay = w.delay

/-- If an observer is suspended, the observer of state changes has been told already. -/
def HasToldChange (w : Walk) : Prop :=
  ∀ rest n, w.phase = .observing rest n → Stage.stateChange ∉ rest

/-- A walk is a later stage of itself. -/
theorem Continues.refl (w : Walk) : w.Continues w := ⟨rfl, rfl, rfl⟩

/-- Effects before a turn leave its registry alone. -/
@[simp] theorem registry_after (t : Turn) (l : List Effect) : (t.after l).registry = t.registry :=
  rfl

/-- Effects before a turn come first. -/
@[simp] theorem effects_after (t : Turn) (l : List Effect) :
    (t.after l).effects = l ++ t.effects := rfl

/-- Looking ahead is quiet. -/
theorem lookAhead_quiet (w : Walk) (r : Registry) : (w.lookAhead r).Quiet r := by
  unfold lookAhead
  split
  · exact ⟨rfl, rfl⟩
  · exact ⟨rfl, rfl⟩
  · split <;> exact ⟨rfl, rfl⟩

/-- A walk that has looked ahead is a later stage. -/
theorem lookAhead_continues (w : Walk) (r : Registry) : (w.lookAhead r).walk.Continues w := by
  unfold lookAhead
  split
  · exact ⟨rfl, rfl, rfl⟩
  · exact ⟨rfl, rfl, rfl⟩
  · split <;> exact ⟨rfl, rfl, rfl⟩

/-- A walk that has looked ahead has told its change. -/
theorem lookAhead_hasToldChange (w : Walk) (r : Registry) :
    (w.lookAhead r).walk.HasToldChange := by
  intro rest n
  unfold lookAhead
  split
  · simp [fail]
  · simp [finish]
  · split <;> simp [finish]

/-- Observers other than that of state changes are told without calling it. -/
theorem changesIn_tell_of_not_mem (w : Walk) (o : Observers) (n : Notice) (l : List Stage)
    (hl : Stage.stateChange ∉ l) : changesIn (w.tell o n l).2 = [] := by
  induction l with
  | nil => rfl
  | cons stage rest ih =>
    have hstage : Stage.stateChange ≠ stage := List.ne_of_not_mem_cons hl
    have hrest : Stage.stateChange ∉ rest := List.not_mem_of_not_mem_cons hl
    have hcall (l : List Effect) : changesIn (w.call n stage :: l) = changesIn l := by
      cases stage with
      | stateChange => exact absurd rfl hstage
      | established => rfl
    unfold tell
    split
    · exact ih hrest
    · simpa [hcall] using ih hrest
    · simp [hcall, callbackFailed]
    · simp [hcall]
    · simp [hcall]

/-- The observer of state changes is called once for a new state, if it is set. -/
theorem changesIn_tell_stages (w : Walk) (o : Observers) (n : Notice) :
    changesIn (w.tell o n (stages n.new)).2 =
      if o.stateChange.isSome then [(w.address, w.generation, n.old, n.new)] else [] := by
  obtain ⟨rest, hstages, hrest⟩ :
      ∃ rest, stages n.new = .stateChange :: rest ∧ Stage.stateChange ∉ rest := by
    unfold stages
    split
    · exact ⟨[.established], rfl, by simp⟩
    · exact ⟨[], rfl, by simp⟩
  have htell := changesIn_tell_of_not_mem w o n rest hrest
  have hcall (l : List Effect) : changesIn (w.call n .stateChange :: l) =
      (w.address, w.generation, n.old, n.new) :: changesIn l := rfl
  rw [hstages, tell]
  cases ho : o.stateChange with
  | none => simpa [reply?, ho] using htell
  | some reply =>
    cases reply with
    | returned => simpa [reply?, ho, hcall] using htell
    | raised message => simp [reply?, ho, hcall, callbackFailed]
    | suspended seconds => simp [reply?, ho, hcall]
    | cancelled => simp [reply?, ho, hcall]

/-- Without observers nobody is told. -/
theorem tell_nobody (w : Walk) (n : Notice) (l : List Stage) : w.tell {} n l = (.all, []) := by
  induction l with
  | nil => rfl
  | cons stage rest ih => cases stage <;> exact ih

/-- The observers that are left for later come after one that has been told. -/
theorem tell_left (w : Walk) (o : Observers) (n : Notice) {l rest : List Stage}
    (h : (w.tell o n l).1 = .upTo rest) : rest <:+ l.tail := by
  induction l with
  | nil => simp [tell] at h
  | cons stage l ih =>
    unfold tell at h
    split at h
    · exact (ih h).trans (List.tail_suffix l)
    · exact (ih h).trans (List.tail_suffix l)
    · simp at h
    · obtain rfl := Telling.upTo.inj h
      exact List.suffix_rfl
    · simp at h

/-- After the stages of a new state, only later observers are left. -/
theorem not_mem_left_stages (w : Walk) (o : Observers) (n : Notice) {rest : List Stage}
    (h : (w.tell o n (stages n.new)).1 = .upTo rest) : Stage.stateChange ∉ rest := by
  have htail : Stage.stateChange ∉ (stages n.new).tail := by
    unfold stages
    split <;> simp
  exact fun hmem => htail ((w.tell_left o n h).subset hmem)

/-- Going on after a notice writes nothing and tells of no change. -/
theorem proceed_quiet (w : Walk) (r : Registry) (n : Notice) (told : Telling) :
    (w.proceed r n told).Quiet r := by
  unfold proceed
  split
  · exact ⟨rfl, rfl⟩
  · exact ⟨rfl, rfl⟩
  · split
    · exact ⟨rfl, rfl⟩
    · exact w.lookAhead_quiet r

/-- A walk that has gone on after a notice is a later stage. -/
theorem proceed_continues (w : Walk) (r : Registry) (n : Notice) (told : Telling) :
    (w.proceed r n told).walk.Continues w := by
  unfold proceed
  split
  · exact ⟨rfl, rfl, rfl⟩
  · exact ⟨rfl, rfl, rfl⟩
  · split
    · exact ⟨rfl, rfl, rfl⟩
    · exact w.lookAhead_continues r

/-- A walk that has gone on after a notice has told the change. -/
theorem proceed_hasToldChange (w : Walk) (r : Registry) (n : Notice) {told : Telling}
    (htold : ∀ rest, told = .upTo rest → Stage.stateChange ∉ rest) :
    (w.proceed r n told).walk.HasToldChange := by
  unfold proceed
  split
  · rename_i rest
    intro rest' n' hphase
    obtain ⟨rfl, _⟩ := Phase.observing.inj hphase
    exact htold _ rfl
  · intro rest n' hphase
    simp [callOff] at hphase
  · split
    · intro rest n' hphase
      simp [finish] at hphase
    · exact w.lookAhead_hasToldChange r

/-- Notifying observers writes no session. -/
theorem notify_registry (w : Walk) (r : Registry) (o : Observers) (n : Notice) (l : List Stage) :
    (w.notify r o n l).registry = r :=
  (w.proceed_quiet r n _).registry_eq

/-- The changes told are those of the calls. -/
theorem notify_changes (w : Walk) (r : Registry) (o : Observers) (n : Notice) (l : List Stage) :
    changesIn (w.notify r o n l).effects = changesIn (w.tell o n l).2 := by
  simp [notify, (w.proceed_quiet r n _).changes_eq]

/-- A walk that has notified observers is a later stage. -/
theorem notify_continues (w : Walk) (r : Registry) (o : Observers) (n : Notice)
    (l : List Stage) : (w.notify r o n l).walk.Continues w :=
  w.proceed_continues r n _

/-- The step after the delay writes the session of a live registration, and is quiet where the
registration is gone. -/
theorem step_quiet_or_writes (w : Walk) (r : Registry) (now : Float) (o : Observers)
    (hasleep : w.phase = .asleep) :
    (w.step r now o).Quiet r ∨ ∃ s, (w.step r now o).Writes w r now o s := by
  unfold step
  cases hlive : r.live? w.address w.generation with
  | error f => exact Or.inl ⟨rfl, rfl⟩
  | ok found =>
    cases found with
    | none => exact Or.inl ⟨rfl, rfl⟩
    | some s =>
      right
      refine ⟨s, ?_⟩
      rcases hmoved : s.advance now with ⟨moved, f | state⟩
      · exact ⟨hasleep, hlive, by simp only [hmoved], by simp only [hmoved, changesIn_nil]⟩
      · have htold :=
          changesIn_tell_stages { w with written := state } o ⟨s.state, state⟩
        refine ⟨hasleep, hlive, ?_, ?_⟩
        · simp only [hmoved, registry_after, notify_registry]
        · simpa only [hmoved, effects_after, List.singleton_append, changesIn_walk_report,
            notify_changes] using htold

/-- A walk that has made a step is a later stage. -/
theorem step_continues (w : Walk) (r : Registry) (now : Float) (o : Observers) :
    (w.step r now o).walk.Continues w := by
  unfold step
  split
  · exact ⟨rfl, rfl, rfl⟩
  · exact ⟨rfl, rfl, rfl⟩
  · split
    · exact ⟨rfl, rfl, rfl⟩
    · obtain ⟨haddress, hgeneration, hdelay⟩ := notify_continues _ _ _ _ _
      exact ⟨haddress, hgeneration, hdelay⟩

/-- A walk that has made a step has told its change. -/
theorem step_hasToldChange (w : Walk) (r : Registry) (now : Float) (o : Observers) :
    (w.step r now o).walk.HasToldChange := by
  unfold step
  split
  · intro rest n hphase
    simp [fail] at hphase
  · intro rest n hphase
    simp [finish] at hphase
  · split
    · intro rest n hphase
      simp [fail] at hphase
    · exact proceed_hasToldChange _ _ _ fun rest hrest => not_mem_left_stages _ _ _ hrest

/-- Going on with the observers that are left writes nothing. -/
theorem goOn_registry (w : Walk) (r : Registry) (o : Observers) (rest : List Stage)
    (n : Notice) : (w.goOn r o rest n).registry = r := by
  unfold goOn
  split
  · exact w.notify_registry r o n rest
  · exact (w.proceed_quiet r n .all).registry_eq
  · rfl
  · exact (w.proceed_quiet r n .calledOff).registry_eq

/-- Going on with the observers that are left is quiet, for that of state changes is not among
them. -/
theorem goOn_quiet (w : Walk) (r : Registry) (o : Observers) (rest : List Stage) (n : Notice)
    (hrest : Stage.stateChange ∉ rest) : (w.goOn r o rest n).Quiet r := by
  refine ⟨w.goOn_registry r o rest n, ?_⟩
  unfold goOn
  split
  · rw [notify_changes, changesIn_tell_of_not_mem w o n rest hrest]
  · have hchanges := (w.proceed_quiet r n .all).changes_eq
    simpa [callbackFailed] using hchanges
  · rfl
  · exact (w.proceed_quiet r n .calledOff).changes_eq

/-- A walk whose observer has returned is a later stage. -/
theorem goOn_continues (w : Walk) (r : Registry) (o : Observers) (rest : List Stage)
    (n : Notice) : (w.goOn r o rest n).walk.Continues w := by
  unfold goOn
  split
  · exact w.notify_continues r o n rest
  · exact w.proceed_continues r n .all
  · exact ⟨rfl, rfl, rfl⟩
  · exact w.proceed_continues r n .calledOff

/-- A walk whose observer has returned has told its change. -/
theorem goOn_hasToldChange (w : Walk) (r : Registry) (o : Observers) (rest : List Stage)
    (n : Notice) (hrest : Stage.stateChange ∉ rest) :
    (w.goOn r o rest n).walk.HasToldChange := by
  unfold goOn
  split
  · apply proceed_hasToldChange
    intro left hleft hmem
    exact hrest (List.mem_of_mem_tail ((w.tell_left o n hleft).subset hmem))
  · exact w.proceed_hasToldChange r n nofun
  · intro left n' hphase
    obtain ⟨rfl, _⟩ := Phase.observing.inj hphase
    exact hrest
  · exact w.proceed_hasToldChange r n nofun

/-- A turn that no cancellation reaches is quiet or writes the session of the live registration
of its walk. -/
theorem resume_quiet_or_writes (w : Walk) (r : Registry) (now : Float) (o : Observers)
    (hw : w.HasToldChange) :
    (w.resume r now o).Quiet r ∨ ∃ s, (w.resume r now o).Writes w r now o s := by
  unfold resume
  cases hphase : w.phase with
  | scheduled => exact Or.inl (w.lookAhead_quiet r)
  | asleep => exact w.step_quiet_or_writes r now o hphase
  | observing rest n => exact Or.inl (w.goOn_quiet r o rest n (hw rest n hphase))
  | ended | calledOff | failed => exact Or.inl ⟨rfl, rfl⟩

/-- A walk that has had a turn is a later stage. -/
theorem resume_continues (w : Walk) (r : Registry) (now : Float) (o : Observers) :
    (w.resume r now o).walk.Continues w := by
  unfold resume
  split
  · exact w.lookAhead_continues r
  · exact w.step_continues r now o
  · exact w.goOn_continues r o _ _
  · exact .refl w
  · exact .refl w
  · exact .refl w

/-- A walk that has had a turn has told its change. -/
theorem resume_hasToldChange (w : Walk) (r : Registry) (now : Float) (o : Observers)
    (hw : w.HasToldChange) : (w.resume r now o).walk.HasToldChange := by
  unfold resume
  split
  · exact w.lookAhead_hasToldChange r
  · exact w.step_hasToldChange r now o
  · rename_i rest n hphase
    exact w.goOn_hasToldChange r o rest n (hw rest n hphase)
  · exact hw
  · exact hw
  · exact hw

/-- The end of a cancelled walk is quiet. -/
theorem halt_quiet (w : Walk) (r : Registry) : (w.halt r).Quiet r := by
  unfold halt
  split <;> exact ⟨rfl, rfl⟩

/-- A walk that is halted is a later stage. -/
theorem halt_continues (w : Walk) (r : Registry) : (w.halt r).walk.Continues w := by
  unfold halt
  split <;> exact ⟨rfl, rfl, rfl⟩

/-- A walk that is halted has told its change. -/
theorem halt_hasToldChange (w : Walk) (r : Registry) (hw : w.HasToldChange) :
    (w.halt r).walk.HasToldChange := by
  intro rest n
  unfold halt
  split
  · simp [finish]
  · simp [finish]
  · simp [finish]
  · exact hw rest n
  · exact hw rest n
  · exact hw rest n

/-- One turn of a walk, which a pending cancellation reaches or does not reach. -/
def turnWith (w : Walk) (heeding : Bool) (r : Registry) (now : Float) (o : Observers) : Turn :=
  if heeding then w.turn r now o else w.resume r now o

/-- A turn that a pending cancellation reaches is the end of the walk. -/
theorem turnWith_of_heeded {w : Walk} {heeding : Bool} (h : (heeding && w.stopping) = true)
    (r : Registry) (now : Float) (o : Observers) : w.turnWith heeding r now o = w.halt r := by
  obtain ⟨rfl, hstopping⟩ := Bool.and_eq_true_iff.mp h
  rw [turnWith, if_pos rfl, turn, if_pos hstopping]

/-- In every other turn the walk goes on. -/
theorem turnWith_of_unheeded {w : Walk} {heeding : Bool} (h : (heeding && w.stopping) = false)
    (r : Registry) (now : Float) (o : Observers) :
    w.turnWith heeding r now o = w.resume r now o := by
  unfold turnWith turn
  cases heeding with
  | false => rfl
  | true =>
    have hstopping : ¬w.stopping = true := Bool.eq_false_iff.mp h
    rw [if_pos rfl, if_neg hstopping]

/-- Every turn is the end of a cancelled walk or one that no cancellation reaches. -/
theorem turnWith_eq (w : Walk) (heeding : Bool) (r : Registry) (now : Float) (o : Observers) :
    w.turnWith heeding r now o = w.halt r ∨
      w.turnWith heeding r now o = w.resume r now o := by
  cases h : heeding && w.stopping with
  | true => exact Or.inl (turnWith_of_heeded h r now o)
  | false => exact Or.inr (turnWith_of_unheeded h r now o)

/-- A turn, heeding a cancellation or not, is quiet or writes one session. -/
theorem turnWith_quiet_or_writes (w : Walk) (heeding : Bool) (r : Registry) (now : Float)
    (o : Observers) (hw : w.HasToldChange) :
    (w.turnWith heeding r now o).Quiet r ∨
      ∃ s, (w.turnWith heeding r now o).Writes w r now o s := by
  rcases w.turnWith_eq heeding r now o with h | h
  · exact Or.inl (h ▸ w.halt_quiet r)
  · exact h ▸ w.resume_quiet_or_writes r now o hw

/-- After a turn, heeding a cancellation or not, the walk is a later stage. -/
theorem turnWith_continues (w : Walk) (heeding : Bool) (r : Registry) (now : Float)
    (o : Observers) : (w.turnWith heeding r now o).walk.Continues w := by
  rcases w.turnWith_eq heeding r now o with h | h
  · exact h ▸ w.halt_continues r
  · exact h ▸ w.resume_continues r now o

/-- After a turn, heeding a cancellation or not, the walk has told its change. -/
theorem turnWith_hasToldChange (w : Walk) (heeding : Bool) (r : Registry) (now : Float)
    (o : Observers) (hw : w.HasToldChange) :
    (w.turnWith heeding r now o).walk.HasToldChange := by
  rcases w.turnWith_eq heeding r now o with h | h
  · exact h ▸ w.halt_hasToldChange r hw
  · exact h ▸ w.resume_hasToldChange r now o hw

end Walk

namespace Engine

/-- A turn of a walk leaves its turn's registry and the walk behind, and nothing else. -/
theorem turnOf_of_some {e : Engine} {i : Nat} {w : Walk} (hw : e.walk? i = some w) (now : Float)
    (o : Observers) (heeding : Bool) :
    e.turnOf i now o heeding =
      ({ e with
          registry := (w.turnWith heeding e.registry now o).registry
          walks := e.walks.set i (w.turnWith heeding e.registry now o).walk },
        (w.turnWith heeding e.registry now o).effects) := by
  cases heeding <;> simp [turnOf, Roster.turn, Roster.turnUnheeding, hw, Roster.absorb,
    Roster.setWalk, withRoster, Walk.turnWith]

/-- A turn of a walk that was never started does nothing. -/
theorem turnOf_of_none {e : Engine} {i : Nat} (hw : e.walk? i = none) (now : Float)
    (o : Observers) (heeding : Bool) : e.turnOf i now o heeding = (e, []) := by
  cases heeding <;> simp [turnOf, Roster.turn, Roster.turnUnheeding, hw, withRoster]

end Engine

end Peering
