import Peering.Proofs.Marching
import Peering.Proofs.Walks

/-!
# The end of a simulation

A simulation closes its engine at its end. The walks that are not over are told to stop, those that
sleep are woken up for it, and the caller waits until all of them are over. This file shows that
this comes to an end.
-/

namespace Peering

open Timers

/-- A walk that has been told to stop is over after its turn, and asks for no delay. -/
theorem Walk.turn_of_stopping {w : Walk} (hrunning : w.isRunning = true)
    (hstopping : w.stopping = true) (r : Registry) (now : Float) (o : Observers) :
    ∃ effects, w.turn r now o = ⟨r, w.finish, effects⟩ ∧
      effects.findSome? Effect.delay? = none := by
  rw [turn, if_pos hstopping, halt]
  unfold isRunning at hrunning
  cases hphase : w.phase with
  | scheduled | asleep | observing => exact ⟨_, rfl, rfl⟩
  | ended | calledOff | failed => simp [hphase] at hrunning

namespace Roster

/-- Who is told to stop has still to come to an end. -/
theorem isRunning_cancel (r : Roster) (i j : Nat) :
    (r.cancel i).1.isRunning j = r.isRunning j := by
  rw [isRunning, walk?_cancel, isRunning]
  cases r.walk? j with
  | none => rfl
  | some w =>
    by_cases hij : j = i <;> simp [hij, Walk.isRunning]

/-- Requests for cancellation end no walk. -/
theorem isRunning_cancelAll (r : Roster) (numbers : List Nat) (j : Nat) :
    (r.cancelAll numbers).1.isRunning j = r.isRunning j := by
  induction numbers generalizing r with
  | nil => rfl
  | cons i rest ih => exact (ih (r.cancel i).1).trans (r.isRunning_cancel i j)

/-- The cancellation of all walks that are not over is requested. -/
theorem effects_cancelAll (r : Roster) (numbers : List Nat) :
    (r.cancelAll numbers).2 = (numbers.filter r.isRunning).map .cancelled := by
  induction numbers generalizing r with
  | nil => rfl
  | cons i rest ih =>
    have hsame : (r.cancel i).1.isRunning = r.isRunning := funext (r.isRunning_cancel i)
    have hfirst : (r.cancel i).2 = if r.isRunning i then [.cancelled i] else [] := by
      unfold cancel isRunning
      cases r.walk? i with
      | none => rfl
      | some w => by_cases hw : w.isRunning = true <;> simp [hw]
    have hall : (r.cancelAll (i :: rest)).2 =
        (r.cancel i).2 ++ ((r.cancel i).1.cancelAll rest).2 := rfl
    rw [hall, ih, hsame, hfirst, List.filter_cons]
    split_ifs <;> rfl

end Roster

namespace Timers

variable {h : Timers Party} {ts : List (Timer Party)}

/-- Nobody waits for these timers any more. -/
def AreIdle (ts : List (Timer Party)) : Prop := ∀ t ∈ ts, t.owner = none

/-- The timer without its owner, if this is the given one. -/
def released (who : Party) (t : Timer Party) : Timer Party :=
  if t.owner == some who then { t with owner := none } else t

/-- A timer is released at its time. -/
theorem due_released (who : Party) (t : Timer Party) : (released who t).due = t.due := by
  unfold released
  split_ifs <;> rfl

/-- Releasing a party releases each of its timers. -/
theorem release_eq (h : Timers Party) (who : Party) : h.release who = h.map (released who) := rfl

/-- Who does not wait any more leaves the timers where they are. -/
theorem Keeps.release (hkeeps : Keeps h ts) (who : Party) :
    Keeps (h.release who) (ts.map (released who)) := by
  have hrank (k : Nat) : rankAt (h.release who) k = rankAt h k := by
    rw [release_eq, rankAt, rankAt, Array.getElem?_map]
    cases h[k]? with
    | none => rfl
    | some t => exact congrArg Double.rank (due_released who t)
  constructor
  case perm =>
    rw [release_eq, Array.toList_map]
    exact hkeeps.perm.map _
  case numbers =>
    intro t ht
    obtain ⟨t, ht', rfl⟩ := List.mem_map.mp ht
    rw [due_released]
    exact hkeeps.numbers t ht'
  case isHeap =>
    intro k hk hlt
    rw [hrank, hrank]
    rw [release_eq, Array.size_map] at hlt
    exact hkeeps.isHeap k hk hlt

/-- Timers for which nobody waits are dropped. -/
theorem Keeps.dropIdle_eq_empty (hkeeps : Keeps h ts) (hidle : AreIdle ts) : h.dropIdle = #[] := by
  have hsize : ts.length ≤ h.size := by
    rw [← hkeeps.perm.length_eq, Array.length_toList]
  have hall : ∀ t ∈ ts, t.owner.isNone = true := fun t ht => by rw [hidle t ht]; rfl
  obtain ⟨hkept, _⟩ := hkeeps.takeWhile (p := fun t => t.owner.isNone)
    (fun s hs _ _ _ _ => hall s hs) hsize
  rw [List.filter_eq_nil_iff.mpr fun t ht => by simp [hall t ht]] at hkept
  exact Array.toList_eq_nil_iff.mp hkept.perm.eq_nil

end Timers

namespace Timed

variable {s t : Timed} {ts : List (Timer Party)} {todo : List Nat} {stop : Timed → Bool}

/-- The walks of the engine have been told to stop, and those that slept have been woken up. -/
def cancelling (s : Timed) : Timed :=
  s.toStation.close.2.foldl note { s with toStation := s.toStation.close.1 }

/-- Where timers are for nobody, a round begins without them. -/
theorem begin_of_idle (hleft : s.left = 0) (hqueue : s.queue ≠ []) (hkeeps : Keeps s.timers ts)
    (hidle : AreIdle ts) :
    s.move? = some { s with timers := #[], left := s.queue.length } := by
  have hempty : s.queue.isEmpty = false := by simpa using hqueue
  have hnone : Timers.takeDue (#[] : Timers Party) s.time (s.time + resolution) = (#[], []) := rfl
  simp only [move?_of_done hleft, beginRound?, hkeeps.dropIdle_eq_empty hidle, nextTime?, hempty,
    Bool.false_eq_true, if_false, Option.bind_eq_bind, Option.bind_some, hnone, List.map_nil,
    List.append_nil]
  rfl

/-- These walks, each once, wait for timers and nobody else does, and all that stands in the queue
are turns. -/
structure Sleeps (s : Timed) (todo : List Nat) (ts : List (Timer Party)) : Prop where
  nodup : todo.Nodup
  keeps : Keeps s.timers ts
  sleeps : ∀ i ∈ todo, ∃ t ∈ ts, t.owner = some (.walk i)
  owners : ∀ t ∈ ts, ∀ who, t.owner = some who → who ∈ walkers todo
  turns : ∀ e ∈ s.queue, ∃ who, e = .turn who

/-- Walks sleep that wait for the same time. -/
private theorem sleeps_of_asleep {q : Float} (htodo : todo.Nodup)
    (hkeeps : Keeps s.timers (timersAt q (walkers todo))) (hqueue : s.queue = []) :
    s.Sleeps todo (timersAt q (walkers todo)) := by
  constructor
  case nodup => exact htodo
  case keeps => exact hkeeps
  case sleeps =>
    exact fun i hi => ⟨_, List.mem_map_of_mem (List.mem_map_of_mem hi), rfl⟩
  case owners =>
    intro t ht who howner
    obtain ⟨other, hother, rfl⟩ := List.mem_map.mp ht
    exact Option.some.inj howner ▸ hother
  case turns =>
    intro e he
    rw [hqueue] at he
    exact absurd he List.not_mem_nil

/-- A walk that sleeps joins the queue when it is told to stop. -/
private theorem Sleeps.note_eq {i : Nat} {rest : List Nat} (h : s.Sleeps (i :: rest) ts) :
    s.note (.cancelled i) = { s with
      timers := s.timers.release (.walk i), queue := s.queue ++ [.turn (.walk i)] } := by
  have hwaiting : s.isWaiting (.walk i) = true := by
    obtain ⟨t, ht, howner⟩ := h.sleeps i List.mem_cons_self
    have hany : s.timers.any (fun t => t.owner == some (.walk i)) = true := by
      rw [← Array.any_toList, List.any_eq_true]
      exact ⟨t, h.keeps.perm.mem_iff.mpr ht, by simp [howner]⟩
    rw [isWaiting, hany, Bool.or_true]
  have hsame : s.queue.map (fun e => if e = .wakeUp (.walk i) then .idle else e) = s.queue := by
    refine (List.map_congr_left fun e he => ?_).trans (List.map_id _)
    obtain ⟨who, rfl⟩ := h.turns e he
    rfl
  rw [note, wake, if_pos hwaiting, hsame]

/-- Then the others still sleep. -/
private theorem Sleeps.after_note {i : Nat} {rest : List Nat} (h : s.Sleeps (i :: rest) ts) :
    (s.note (.cancelled i)).Sleeps rest (ts.map (released (.walk i))) := by
  obtain ⟨hi, hrest⟩ := List.nodup_cons.mp h.nodup
  rw [h.note_eq]
  constructor
  case nodup => exact hrest
  case keeps => exact h.keeps.release _
  case sleeps =>
    intro j hj
    obtain ⟨t, ht, howner⟩ := h.sleeps j (List.mem_cons_of_mem i hj)
    have hji : j ≠ i := fun heq => hi (heq ▸ hj)
    exact ⟨t, List.mem_map.mpr ⟨t, ht, by simp [released, howner, hji]⟩, howner⟩
  case owners =>
    intro t' ht' who howner
    obtain ⟨t, ht, rfl⟩ := List.mem_map.mp ht'
    by_cases hwalk : t.owner = some (.walk i)
    · simp [released, hwalk] at howner
    · simp only [released, beq_iff_eq, hwalk, if_false] at howner
      rcases List.mem_cons.mp (h.owners t ht who howner) with rfl | hmem
      · exact absurd howner hwalk
      · exact hmem
  case turns =>
    intro e he
    rcases List.mem_append.mp he with he | he
    · exact h.turns e he
    · exact ⟨_, List.mem_singleton.mp he⟩

/-- Walks that sleep join the queue when they are told to stop, and then nobody waits any more. -/
private theorem Sleeps.foldl_note (h : s.Sleeps todo ts) :
    ∃ timers ts', Keeps timers ts' ∧ AreIdle ts' ∧ (todo.map Effect.cancelled).foldl note s =
      { s with timers, queue := s.queue ++ (walkers todo).map .turn } := by
  induction todo generalizing s ts with
  | nil =>
    refine ⟨s.timers, ts, h.keeps, fun t ht => ?_, by simp [walkers]⟩
    cases howner : t.owner with
    | none => rfl
    | some who => exact absurd (h.owners t ht who howner) List.not_mem_nil
  | cons i rest ih =>
    obtain ⟨timers, ts', hkeeps, hidle, hfold⟩ := ih h.after_note
    refine ⟨timers, ts', hkeeps, hidle, ?_⟩
    rw [List.map_cons, List.foldl_cons, hfold, h.note_eq]
    simp [walkers]

/-- These walks, each once, are told to stop and not over yet, and no others are running. -/
structure Halts (s : Timed) (todo : List Nat) : Prop where
  nodup : todo.Nodup
  pending : ∀ i ∈ todo, ∃ w, s.engine.walk? i = some w ∧ w.isRunning = true ∧ w.stopping = true
  running : ∀ i, s.engine.isRunning i = true → i ∈ todo

/-- A walk that has been told to stop is over at its next turn, and does nothing else. -/
theorem Halts.run_walk {i : Nat} {rest : List Nat} (h : s.Halts (i :: rest)) :
    ∃ station, s.run (.turn (.walk i)) = { s with toStation := station } ∧
      ({ s with toStation := station } : Timed).Halts rest := by
  obtain ⟨w, hw, hrunning, hstopping⟩ := h.pending i List.mem_cons_self
  obtain ⟨hi, hrest⟩ := List.nodup_cons.mp h.nodup
  obtain ⟨effects, hturn, hdelay⟩ :=
    Walk.turn_of_stopping hrunning hstopping s.engine.registry s.clock s.observers
  have hafter : s.engine.walkTurn i s.clock s.observers =
      ({ s.engine with walks := s.engine.walks.set i w.finish }, effects) := by
    rw [Engine.walkTurn, Roster.turn, hw]
    simp only [hturn]
    rfl
  have hwalk (j : Nat) : (s.toStation.walkTurn i s.clock).1.engine.walk? j =
      if i = j then some w.finish else s.engine.walk? j := by
    have hlt : i < s.engine.walks.length := (List.getElem?_eq_some_iff.mp hw).1
    have hengine : (s.toStation.walkTurn i s.clock).1.engine =
        (s.engine.walkTurn i s.clock s.observers).1 := rfl
    rw [hengine, hafter, Roster.walk?, List.getElem?_set, if_pos hlt]
    rfl
  refine ⟨(s.toStation.walkTurn i s.clock).1, ?_, ?_⟩
  · have hasks : (s.toStation.walkTurn i s.clock).2.findSome? Effect.delay? = none := by
      have heffects : (s.toStation.walkTurn i s.clock).2 =
          (s.engine.walkTurn i s.clock s.observers).2 := rfl
      rw [heffects, hafter]
      exact hdelay
    simp only [run, runWalk, hasks]
  · constructor
    case nodup => exact hrest
    case pending =>
      intro j hj
      have hij : i ≠ j := fun heq => hi (heq ▸ hj)
      rw [hwalk, if_neg hij]
      exact h.pending j (List.mem_cons_of_mem i hj)
    case running =>
      intro j hj
      rw [Roster.isRunning, hwalk] at hj
      by_cases hij : i = j
      · rw [if_pos hij] at hj
        cases hj
      · rw [if_neg hij] at hj
        rcases List.mem_cons.mp (h.running j hj) with heq | hmem
        · exact absurd heq.symm hij
        · exact hmem

/-- They are walks of the engine. -/
theorem Halts.length_le (h : s.Halts todo) : todo.length ≤ s.engine.walks.length := by
  have hsubset : todo ⊆ List.range s.engine.walks.length := fun i hi => by
    obtain ⟨w, hw, _⟩ := h.pending i hi
    exact List.mem_range.mpr (List.getElem?_eq_some_iff.mp hw).1
  simpa using (h.nodup.subperm hsubset).length_le

/-- Where walks are to halt, all are over exactly if none is left of them. -/
theorem Halts.areOver_iff {numbers : List Nat} (h : s.Halts todo) (hnumbers : todo ⊆ numbers) :
    areOver numbers s = true ↔ todo = [] := by
  rw [areOver, Bool.not_eq_true', List.any_eq_false]
  constructor
  · intro hover
    refine List.eq_nil_iff_forall_not_mem.mpr fun i hi => ?_
    obtain ⟨w, hw, hrunning, _⟩ := h.pending i hi
    refine hover i (hnumbers hi) ?_
    rw [Roster.isRunning, hw]
    exact hrunning
  · rintro rfl i _ hrunning
    exact List.not_mem_nil (h.running i hrunning)

/-- Walks that have been told to stop are over after a turn of each. -/
theorem Halts.comes_over {numbers : List Nat} (h : s.Halts todo) (hnumbers : todo ⊆ numbers)
    (hqueue : s.queue = (walkers todo).map .turn) (hleft : s.left = todo.length) :
    ∃ station, Comes (areOver numbers) todo.length s
        { s with toStation := station, queue := [], left := 0 } ∧
      ({ s with toStation := station, queue := [], left := 0 } : Timed).Halts [] := by
  induction todo generalizing s with
  | nil =>
    have hqueue' : s.queue = [] := hqueue
    have hleft' : s.left = 0 := hleft
    refine ⟨s.toStation, ?_, h.nodup, h.pending, h.running⟩
    rw [← hqueue', ← hleft']
    exact .here s
  | cons i rest ih =>
    have hfirst : s.queue = .turn (.walk i) :: (walkers rest).map .turn := hqueue
    have hstop : areOver numbers s = false := by
      rw [Bool.eq_false_iff, ne_eq, h.areOver_iff hnumbers]
      exact List.cons_ne_nil i rest
    have hmove := move?_of_left hleft hfirst
    have h' : ({ s with queue := (walkers rest).map .turn, left := rest.length } : Timed).Halts
        (i :: rest) := ⟨h.nodup, h.pending, h.running⟩
    obtain ⟨station, hrun, hhalts⟩ := h'.run_walk
    rw [hrun] at hmove
    obtain ⟨station', hcomes, hover⟩ :=
      ih hhalts (fun j hj => hnumbers (List.mem_cons_of_mem i hj)) rfl rfl
    exact ⟨station', .move hstop hmove hcomes, hover⟩

/-- Once nobody else can go on, the caller gets its turn when its waiting is over. -/
private theorem comes_waking (hleft : s.left = 0) (hqueue : s.queue = [.wakeUp .caller])
    (hkeeps : Keeps s.timers ts) (hidle : AreIdle ts) :
    Comes callerIsNext 3 s { s with timers := #[], queue := [.turn .caller], left := 1 } := by
  have hfirst := begin_of_idle hleft (by rw [hqueue]; exact List.cons_ne_nil _ _) hkeeps hidle
  have hsecond : ({ s with timers := #[], left := s.queue.length } : Timed).move? =
      some { s with timers := #[], queue := [.turn .caller], left := 0 } := by
    simp only [move?, hqueue, List.length_singleton]
    rfl
  have hthird := begin_of_idle (s := { s with timers := #[], queue := [.turn .caller], left := 0 })
    rfl (List.cons_ne_nil _ _) keeps_empty (fun _ ht => absurd ht List.not_mem_nil)
  refine .move (callerIsNext_of_done hleft) hfirst (.move ?_ hsecond
    (.move (callerIsNext_of_done rfl) hthird (.here _)))
  exact callerIsNext_of_head hqueue (by simp)

/-- Closing the engine comes to an end. -/
structure Closes (s : Timed) : Prop where
  /-- The walks come to their ends. -/
  settles : areOver s.engine.walkOf.values
    (s.cancelling.drive (areOver s.engine.walkOf.values)) = true
  /-- Then the caller gets its turn. -/
  resumes : (((s.cancelling.drive (areOver s.engine.walkOf.values)).enqueue
    (.wakeUp .caller)).drive callerIsNext).callerIsNext = true
  /-- No walk is running afterwards. -/
  halted : ∀ i, s.close.engine.isRunning i = false

/-- Where the walks that have been told to stop are those who stand in the queue, and nobody waits
for a timer, they come to their ends. -/
private theorem Halts.exists_drive {numbers : List Nat} (h : s.Halts todo)
    (hnumbers : todo ⊆ numbers) (hleft : s.left = 0) (hqueue : s.queue = (walkers todo).map .turn)
    (hkeeps : Keeps s.timers ts) (hidle : AreIdle ts) :
    ∃ t ts', s.drive (areOver numbers) = t ∧ areOver numbers t = true ∧ t.Halts [] ∧ t.left = 0 ∧
      t.queue = [] ∧ Keeps t.timers ts' ∧ AreIdle ts' := by
  by_cases hnone : todo = []
  · subst hnone
    have hover := (h.areOver_iff hnumbers).mpr rfl
    exact ⟨s, ts, (Comes.here _).drive_eq hover (Nat.zero_le _), hover, h, hleft, hqueue, hkeeps,
      hidle⟩
  · have hne : s.queue ≠ [] := by simpa [hqueue, walkers] using hnone
    have hlength : s.queue.length = todo.length := by simp [hqueue, walkers]
    have hbegin := begin_of_idle hleft hne hkeeps hidle
    have hstop : areOver numbers s = false := by
      rw [Bool.eq_false_iff, ne_eq, h.areOver_iff hnumbers]
      exact hnone
    have hround : ({ s with timers := #[], left := s.queue.length } : Timed).Halts todo :=
      ⟨h.nodup, h.pending, h.running⟩
    obtain ⟨station, hcomes, hhalts⟩ := hround.comes_over hnumbers hqueue hlength
    have hover := (hhalts.areOver_iff (List.nil_subset numbers)).mpr rfl
    have hmoves : todo.length + 1 ≤ horizon * s.parties := by
      have hparties : todo.length + 1 ≤ s.parties :=
        Nat.succ_le_succ (Nat.le_add_right_of_le h.length_le)
      exact hparties.trans (Nat.le_mul_of_pos_left _ (by decide))
    exact ⟨_, [], (Comes.move hstop hbegin hcomes).drive_eq hover hmoves, hover, hhalts, rfl, rfl,
      keeps_empty, fun _ ht => absurd ht List.not_mem_nil⟩

/-- Then closing the engine comes to an end. -/
private theorem Halts.closes (h : s.cancelling.Halts todo)
    (htodo : todo ⊆ s.engine.walkOf.values) (hleft : s.cancelling.left = 0)
    (hqueue : s.cancelling.queue = (walkers todo).map .turn)
    (hkeeps : Keeps s.cancelling.timers ts) (hidle : AreIdle ts) : s.Closes := by
  obtain ⟨t, ts', hdrive, hover, hhalts, hleft', hqueue', hkeeps', hidle'⟩ :=
    h.exists_drive htodo hleft hqueue hkeeps hidle
  have hwaking := comes_waking (s := t.enqueue (.wakeUp .caller)) hleft'
    (by rw [enqueue, hqueue']; rfl) hkeeps' hidle'
  have hmoves : 3 ≤ horizon * (t.enqueue (.wakeUp .caller)).parties :=
    Nat.le_trans (by decide : 3 ≤ horizon) (Nat.le_mul_of_pos_right _ (Nat.succ_pos _))
  have hnext := hwaking.drive_eq rfl hmoves
  constructor
  case settles => rwa [hdrive]
  case resumes =>
    rw [hdrive, hnext]
    rfl
  case halted =>
    intro i
    have hclose : s.close.engine = (if s.engine.walkOf.values.isEmpty then s.cancelling else
        s.cancelling.waitUntil (areOver s.engine.walkOf.values) (.wakeUp .caller)).engine := by
      simp only [close, cancelling, Station.closed, Station.record]
    rw [hclose]
    split_ifs with hempty
    · have hnone : todo = [] := by
        rw [List.isEmpty_iff.mp hempty] at htodo
        exact List.subset_nil.mp htodo
      exact Bool.eq_false_iff.mpr fun hrunning =>
        List.not_mem_nil (hnone ▸ h.running i hrunning)
    · rw [waitUntil, resume, hdrive, hnext]
      exact Bool.eq_false_iff.mpr fun hrunning => List.not_mem_nil (hhalts.running i hrunning)

/-- The walks that are not over when the engine begins to close. -/
def unfinished (s : Timed) : List Nat := s.engine.walkOf.values.filter s.engine.isRunning

variable {settings : Settings} {ms : List Member} {k : Nat}

/-- The engine begins to close: the walks that are not over are told to stop. -/
private theorem Simulates.beginsToClose (h : s.Simulates settings ms) :
    s.toStation.close.2 = s.unfinished.map .cancelled ∧
      ∀ todo : List Nat, todo.Perm s.unfinished →
        ({ s with toStation := s.toStation.close.1 } : Timed).Halts todo := by
  have hvalues := h.marches.walkOf_values
  refine ⟨Roster.effects_cancelAll _ _, fun todo htodo => ?_⟩
  have hmem (i : Nat) : i ∈ todo ↔ i < ms.length ∧ s.engine.isRunning i = true := by
    rw [htodo.mem_iff, unfinished, List.mem_filter, hvalues, List.mem_range]
  have hwalk (i : Nat) : ({ s with toStation := s.toStation.close.1 } : Timed).engine.walk? i =
      (s.engine.walk? i).map fun w => if i ∈ List.range ms.length then w.told else w := by
    rw [← hvalues]
    exact Roster.walk?_cancelAll s.engine.toRoster s.engine.walkOf.values i
  constructor
  case nodup =>
    rw [htodo.nodup_iff, unfinished, hvalues]
    exact List.nodup_range.filter _
  case pending =>
    intro i hi
    obtain ⟨hlt, hrunning⟩ := (hmem i).mp hi
    obtain ⟨w, hw, hrunning⟩ := (Option.any_eq_true _ _).mp hrunning
    refine ⟨w.told, ?_, ?_, Walk.stopping_told (.inl hrunning)⟩
    · rw [hwalk, hw, Option.map_some, if_pos (List.mem_range.mpr hlt)]
    · rw [Walk.isRunning, Walk.phase_told]
      exact hrunning
  case running =>
    intro i hi
    have hrunning : s.engine.isRunning i = true :=
      (Roster.isRunning_cancelAll s.engine.toRoster s.engine.walkOf.values i).symm.trans hi
    obtain ⟨w, hw, _⟩ := (Option.any_eq_true _ _).mp hrunning
    rw [Roster.walk?, h.marches.walks_eq, List.getElem?_map] at hw
    refine (hmem i).mpr ⟨?_, hrunning⟩
    by_contra hlt
    rw [List.getElem?_eq_none (Nat.le_of_not_lt hlt)] at hw
    cases hw

/-- How many turns the walks have had tells which of them are not over. -/
private theorem Simulates.unfinished_eq (h : s.Simulates settings (ms.map (.after k))) :
    s.unfinished = if k ≤ 5 then List.range ms.length else [] := by
  have hrunning : ∀ i ∈ List.range ms.length, s.engine.isRunning i = decide (k ≤ 5) := by
    intro i hi
    have hm := List.getElem?_eq_getElem (List.mem_range.mp hi)
    rw [Roster.isRunning, Roster.walk?, h.marches.walks_eq, List.getElem?_map, List.getElem?_map,
      hm]
    simp only [Option.map_some, Option.any_some, Walk.isRunning, Member.walk, Member.after]
    by_cases hk : k ≤ 5
    · by_cases hfirst : k = 0 <;> simp [hk, hfirst]
    · have hfirst : k ≠ 0 := by omega
      simp [hk, hfirst]
  rw [unfinished, h.marches.walkOf_values, List.length_map, List.filter_congr hrunning]
  by_cases hk : k ≤ 5 <;> simp [hk]

/-- Where nobody waits, there is nobody to wake up. -/
private theorem foldl_note_of_ready (hqueue : s.queue = (walkers todo).map .turn)
    (htimers : s.timers = #[]) (numbers : List Nat) :
    (numbers.map Effect.cancelled).foldl note s = s := by
  rw [List.foldl_map]
  refine List.foldl_fixed' (fun i => ?_) numbers
  have hwaiting : s.isWaiting (.walk i) = false := by simp [isWaiting, hqueue, htimers]
  rw [note, wake, hwaiting]
  rfl

/-- Where the walks that are not over stand in the queue once they have been told to stop, closing
the engine comes to an end. -/
private theorem Rests.closes_of_cancelling (h : s.Rests settings ms k []) {timers : Timers Party}
    (htodo : todo.Perm s.unfinished) (hkeeps : Keeps timers ts) (hidle : AreIdle ts)
    (hcancelling : s.cancelling = { s with
      toStation := s.toStation.close.1, timers, queue := (walkers todo).map .turn }) :
    s.Closes := by
  have hhalts := h.simulates.beginsToClose.2 todo htodo
  have hclosing : s.cancelling.Halts todo := by
    rw [hcancelling]
    exact ⟨hhalts.nodup, hhalts.pending, hhalts.running⟩
  have hleft : s.cancelling.left = 0 := by
    rw [hcancelling]
    exact h.left_eq
  have hkept : Keeps s.cancelling.timers ts := by
    rw [hcancelling]
    exact hkeeps
  exact hclosing.closes (fun i hi => (List.mem_filter.mp (htodo.mem_iff.mp hi)).1) hleft
    (by rw [hcancelling]) hkept hidle

/-- Wherever the walks stand, closing the engine comes to an end. -/
theorem Rests.closes (h : s.Rests settings ms k []) : s.Closes := by
  obtain ⟨heffects, _⟩ := h.simulates.beginsToClose
  have hunfinished := h.simulates.unfinished_eq
  have hcancelling : s.cancelling = (s.unfinished.map Effect.cancelled).foldl note
      { s with toStation := s.toStation.close.1 } := by rw [cancelling, heffects]
  cases h.stands with
  | ready hk _ horder hqueue hkeeps =>
    rw [if_pos hk] at hunfinished
    have hsame := foldl_note_of_ready (s := { s with toStation := s.toStation.close.1 }) hqueue
      (Array.toList_eq_nil_iff.mp hkeeps.perm.eq_nil) s.unfinished
    refine h.closes_of_cancelling (hunfinished ▸ horder) hkeeps
      (fun _ ht => absurd ht List.not_mem_nil) ?_
    rw [hcancelling, hsame, ← hqueue]
  | asleep _ hk _ hqueue hkeeps =>
    rw [if_pos hk] at hunfinished
    rw [List.append_nil] at hkeeps
    have hsleeps := sleeps_of_asleep (s := { s with toStation := s.toStation.close.1 })
      List.nodup_range hkeeps hqueue
    obtain ⟨timers, ts', hkeeps', hidle, hfold⟩ := hsleeps.foldl_note
    refine h.closes_of_cancelling (.of_eq hunfinished.symm) hkeeps' hidle ?_
    rw [hcancelling, hunfinished, hfold, hqueue]
    rfl
  | ended hk hqueue hkeeps =>
    rw [if_neg (by omega)] at hunfinished
    have htodo : List.Perm [] s.unfinished := .of_eq hunfinished.symm
    refine h.closes_of_cancelling htodo hkeeps
      (fun _ ht => absurd ht List.not_mem_nil) ?_
    rw [hcancelling, hunfinished]
    exact hqueue ▸ rfl

end Timed

end Peering
