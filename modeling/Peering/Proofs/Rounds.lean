import Peering.Proofs.TimerHeap
import Peering.Schedule.Timed

/-!
# Rounds

The timed schedule goes in rounds. This file says what its moves do: how a round begins when
somebody can go on and when nobody can, and that those whose timers are due first get their turns
after two rounds. Moves are counted, so that moving on is known to stop where a condition holds and
not because there have been too many moves.
-/

namespace Peering

open Timers

namespace Timed

/-- So many moves lead from one state of the schedule to another, and a condition holds in none of
the states before that one. -/
inductive Comes (stop : Timed → Bool) : Nat → Timed → Timed → Prop where
  | here (s : Timed) : Comes stop 0 s s
  | move {n : Nat} {s s' t : Timed} (hstop : stop s = false) (hmove : s.move? = some s')
    (hrest : Comes stop n s' t) : Comes stop (n + 1) s t

/-- A time is before another one, and timers that are due at the other one are not due at it. -/
def Apart (time later : Float) : Prop := time < later ∧ time + resolution ≤ later

instance decidableApart (time later : Float) : Decidable (Apart time later) :=
  inferInstanceAs (Decidable (time < later ∧ time + resolution ≤ later))

/-- The timers of several who wait for the same time. -/
def timersAt (time : Float) (parties : List Party) : List (Timer Party) :=
  parties.map fun who => ⟨time, some who⟩

variable {stop : Timed → Bool} {s t u : Timed} {m n : Nat} {ts : List (Timer Party)}
  {parties : List Party} {time : Float}

/-- Moves follow one another. -/
theorem Comes.trans (hst : Comes stop m s t) (htu : Comes stop n t u) :
    Comes stop (m + n) s u := by
  induction hst with
  | here => rwa [Nat.zero_add]
  | move hstop hmove _ ih =>
    rw [Nat.add_right_comm]
    exact .move hstop hmove (ih htu)

/-- Moving on stops where the condition holds, if enough moves are allowed for. -/
theorem Comes.driveFor_eq (h : Comes stop n s t) (ht : stop t = true) (hn : n ≤ m) :
    driveFor stop m s = t := by
  induction h generalizing m with
  | here s => cases m <;> simp [driveFor, ht]
  | move hstop hmove _ ih =>
    obtain ⟨k, rfl⟩ : ∃ k, m = k + 1 := ⟨m - 1, by omega⟩
    simp only [driveFor, hstop, hmove, Bool.false_eq_true, if_false]
    exact ih ht (by omega)

/-- A schedule that comes to a state at which it stops is driven to it. -/
theorem Comes.drive_eq (h : Comes stop n s t) (ht : stop t = true)
    (hn : n ≤ horizon * s.parties) : s.drive stop = t := h.driveFor_eq ht hn

/-- Within a round the next entry of the queue has its turn. -/
theorem move?_of_left {e : Entry} {rest : List Entry} (hleft : s.left = n + 1)
    (hqueue : s.queue = e :: rest) :
    s.move? = some ({ s with queue := rest, left := n }.run e) := by
  simp only [move?, hleft, hqueue]

/-- After a round the next one begins. -/
theorem move?_of_done (hleft : s.left = 0) : s.move? = s.beginRound? := by
  simp only [move?, hleft]

/-- A caller who is done is not next. -/
theorem callerIsNext_of_done (hleft : s.left = 0) : s.callerIsNext = false := by
  simp [callerIsNext, hleft]

/-- A caller is not next while another entry comes first. -/
theorem callerIsNext_of_head {e : Entry} {rest : List Entry} (hqueue : s.queue = e :: rest)
    (he : e ≠ .turn .caller) : s.callerIsNext = false := by
  simp [callerIsNext, hqueue, he]

/-- A timer that is apart from a time is not due at it. -/
theorem Apart.isDue_eq {later : Float} (h : Apart time later) (owner : Option Party) :
    (⟨later, owner⟩ : Timer Party).isDue time (time + resolution) = false := by
  simp [Timer.isDue, Double.not_le_of_lt h.1, h.2]

/-- Where somebody can go on and no timer is due, a round begins at once. -/
theorem begin_of_queue (hleft : s.left = 0) (hqueue : s.queue ≠ []) (hkeeps : Keeps s.timers ts)
    (howned : ∀ t ∈ ts, t.owner.isSome = true) (hts : ∀ t ∈ ts, Apart s.time t.due) :
    ∃ timers : Timers Party, Keeps timers ts ∧
      s.move? = some { s with timers, left := s.queue.length } := by
  have hnone : Keeps s.timers ([] ++ ts) := hkeeps
  obtain ⟨hkept, htaken⟩ := hnone.takeDue (fun t ht => absurd ht List.not_mem_nil)
    fun t ht => (hts t ht).isDue_eq _
  refine ⟨_, hkept, ?_⟩
  have hempty : s.queue.isEmpty = false := by simpa using hqueue
  simp only [move?_of_done hleft, beginRound?, hkeeps.dropIdle_eq howned, nextTime?, hempty,
    Bool.false_eq_true, if_false, Option.bind_eq_bind, Option.bind_some, htaken.eq_nil,
    List.map_nil, List.append_nil]
  rfl

/-- The timers that are taken belong to those who wait for their time, in some order. -/
private theorem exists_order {due : List (Timer Party)}
    (hdue : due.Perm (timersAt time parties)) :
    ∃ order : List Party, order.Perm parties ∧ due.map entryOf = order.map Entry.wakeUp := by
  refine ⟨due.filterMap Timer.owner, ?_, ?_⟩
  · have howners := hdue.filterMap Timer.owner
    simpa [timersAt, List.filterMap_map, Function.comp_def] using howners
  · have howned : ∀ t ∈ due, t.owner.isSome = true := fun t ht => by
      obtain ⟨_, _, rfl⟩ := List.mem_map.mp (hdue.mem_iff.mp ht)
      rfl
    clear hdue
    induction due with
    | nil => rfl
    | cons t due ih =>
      obtain ⟨owner, howner⟩ := Option.isSome_iff_exists.mp (howned t List.mem_cons_self)
      rw [List.map_cons, ih fun t ht => howned t (List.mem_cons_of_mem _ ht),
        List.filterMap_cons, howner]
      simp [entryOf, howner]

/-- The first timer is due at the time for which some wait if all others are due later. -/
private theorem first_due (hkeeps : Keeps s.timers (timersAt time parties ++ ts))
    (hparties : parties ≠ []) (hts : ∀ t ∈ ts, Apart time t.due) :
    ∃ first, s.timers[0]? = some first ∧ first.due = time := by
  obtain ⟨who, others, rfl⟩ := List.exists_cons_of_ne_nil hparties
  have hsize : 0 < s.timers.size := by
    rw [← Array.length_toList, hkeeps.perm.length_eq]
    simp [timersAt]
  have hfirst : s.timers[0]? = some s.timers[0] := Array.getElem?_eq_getElem hsize
  refine ⟨_, hfirst, ?_⟩
  obtain ⟨hmem, hle⟩ := hkeeps.first_le hfirst
  rcases List.mem_append.mp hmem with hmem | hmem
  · obtain ⟨_, _, heq⟩ := List.mem_map.mp hmem
    rw [← heq]
  · have hlt := (Double.lt_iff_rank_lt.mp (hts _ hmem).1).2
    exact absurd (hle ⟨time, some who⟩ (by simp [timersAt])) (not_le_of_gt hlt)

/-- Where nobody can go on, a round begins at the time of those who wait for the least time. They
are woken up. -/
theorem begin_of_timers (hleft : s.left = 0) (hqueue : s.queue = [])
    (hkeeps : Keeps s.timers (timersAt time parties ++ ts)) (hparties : parties ≠ [])
    (htime : s.time ≤ time) (howned : ∀ t ∈ ts, t.owner.isSome = true)
    (hts : ∀ t ∈ ts, Apart time t.due) :
    ∃ (timers : Timers Party) (order : List Party), Keeps timers ts ∧ order.Perm parties ∧
      s.move? = some { s with
        time, timers, queue := order.map Entry.wakeUp, left := order.length } := by
  have hself : time ≤ time := by
    have hnumber := (Double.le_iff_rank_le.mp htime).1.2
    exact Double.le_iff_rank_le.mpr ⟨⟨hnumber, hnumber⟩, le_rfl⟩
  have hall : ∀ t ∈ timersAt time parties ++ ts, t.owner.isSome = true := by
    intro t ht
    rcases List.mem_append.mp ht with ht | ht
    · obtain ⟨who, _, rfl⟩ := List.mem_map.mp ht
      rfl
    · exact howned t ht
  have htheirs : ∀ t ∈ timersAt time parties, t.isDue time (time + resolution) = true := by
    intro t ht
    obtain ⟨_, _, rfl⟩ := List.mem_map.mp ht
    simp [Timer.isDue, hself]
  obtain ⟨first, hfirst, hdue⟩ := first_due hkeeps hparties hts
  obtain ⟨hkept, htaken⟩ := hkeeps.takeDue htheirs fun t ht => (hts t ht).isDue_eq _
  obtain ⟨order, horder, hentries⟩ := exists_order htaken
  refine ⟨_, order, hkept, horder, ?_⟩
  have hnonempty : (order.map Entry.wakeUp).isEmpty = false := by
    rw [List.isEmpty_eq_false_iff, ne_eq, List.map_eq_nil_iff]
    rintro rfl
    exact hparties horder.nil_eq.symm
  simp only [move?_of_done hleft, beginRound?, hkeeps.dropIdle_eq hall, nextTime?, hqueue, hfirst,
    List.isEmpty_nil, if_true, Option.map_some, hdue, htime, Option.bind_eq_bind,
    Option.bind_some, hentries, List.nil_append, hnonempty, Bool.false_eq_true, if_false]
  rw [List.length_map]
  rfl

/-- Those whose waiting is over join the queue, one after the other. -/
private theorem comes_joining (joined : List Entry) (hqueue : s.queue =
    parties.map Entry.wakeUp ++ joined) (hleft : s.left = parties.length) :
    Comes callerIsNext parties.length s
      { s with queue := joined ++ parties.map Entry.turn, left := 0 } := by
  induction parties generalizing s joined with
  | nil =>
    have hqueue' : s.queue = joined := hqueue
    have hleft' : s.left = 0 := hleft
    rw [List.map_nil, List.append_nil, ← hleft', ← hqueue']
    exact .here s
  | cons who rest ih =>
    refine .move (callerIsNext_of_head hqueue (by simp)) (move?_of_left hleft hqueue) ?_
    have hrest := ih (s := { s with
      queue := rest.map Entry.wakeUp ++ joined ++ [.turn who], left := rest.length })
      (joined ++ [.turn who]) (List.append_assoc _ _ _) rfl
    have hjoined : joined ++ [Entry.turn who] ++ rest.map Entry.turn =
        joined ++ (who :: rest).map Entry.turn := by simp
    rw [hjoined] at hrest
    exact hrest

/-- Where nobody can go on, those who wait for the least time get their turns then, in the second
round from now. -/
theorem comes_turns (hleft : s.left = 0) (hqueue : s.queue = [])
    (hkeeps : Keeps s.timers (timersAt time parties ++ ts)) (hparties : parties ≠ [])
    (htime : s.time ≤ time) (howned : ∀ t ∈ ts, t.owner.isSome = true)
    (hts : ∀ t ∈ ts, Apart time t.due) :
    ∃ (timers : Timers Party) (order : List Party), Keeps timers ts ∧ order.Perm parties ∧
      Comes callerIsNext (parties.length + 2) s { s with
        time, timers, queue := order.map Entry.turn, left := order.length } := by
  obtain ⟨timers, order, hkeeps', horder, hbegin⟩ :=
    begin_of_timers hleft hqueue hkeeps hparties htime howned hts
  have hjoining := comes_joining (s := { s with
    time, timers, queue := order.map Entry.wakeUp, left := order.length })
    [] (List.append_nil (order.map Entry.wakeUp)).symm rfl
  rw [List.nil_append] at hjoining
  have hne : order.map Entry.turn ≠ [] := by
    rw [ne_eq, List.map_eq_nil_iff]
    rintro rfl
    exact hparties horder.nil_eq.symm
  obtain ⟨timers', hkeeps'', hbegin'⟩ := begin_of_queue (s := { s with
    time, timers, queue := order.map Entry.turn, left := 0 }) rfl hne hkeeps' howned hts
  refine ⟨timers', order, hkeeps'', horder, ?_⟩
  rw [List.length_map] at hbegin'
  rw [← horder.length_eq]
  exact (Comes.move (callerIsNext_of_done hleft) hbegin hjoining).trans
    (.move (callerIsNext_of_done rfl) hbegin' (.here _))

end Timed

end Peering
