import Peering.Proofs.ClockOrder
import Peering.Schedule.Timers
import Mathlib.Data.List.Perm.Basic

/-!
# Timers are taken when they are due

Timers lie in a heap, where no timer is due before the one above it. Moving timers up and down
restores this order after each change. So what has been put in stays there until it is taken, and
what is taken at a time is exactly what is due then. The times of the timers must be numbers.
-/

namespace Peering.Timers

variable {α : Type} {h : Timers α} {ts due rest : List (Timer α)} {t : Timer α} {i j : Nat}

/-- The rank of the time of the timer at a place. -/
def rankAt (h : Timers α) (i : Nat) : Int ×ₗ Int ×ₗ Int :=
  (h[i]?).elim (Double.rank 0.0) fun t => Double.rank t.due

/-- The times of all timers are numbers. -/
def AreNumbers (ts : List (Timer α)) : Prop := ∀ t ∈ ts, t.due.isNaN = false

/-- No timer is due before the one above it. -/
def IsHeap (h : Timers α) : Prop :=
  ∀ k, 0 < k → k < h.size → rankAt h ((k - 1) / 2) ≤ rankAt h k

/-- Only the timer at a place may be out of order. -/
structure IsHeapBut (h : Timers α) (i : Nat) : Prop where
  /-- All other timers are in order among themselves. -/
  others : ∀ k, 0 < k → k < h.size → k ≠ i → (k - 1) / 2 ≠ i →
    rankAt h ((k - 1) / 2) ≤ rankAt h k
  /-- What is below the place is not due before what is above it. -/
  around : 0 < i → ∀ k, 0 < k → k < h.size → (k - 1) / 2 = i →
    rankAt h ((i - 1) / 2) ≤ rankAt h k

section Places

/-- The rank at a place is that of its timer. -/
theorem rankAt_of_getElem? (ht : h[i]? = some t) : rankAt h i = Double.rank t.due := by
  rw [rankAt, ht, Option.elim_some]

/-- A swap swaps the ranks of two places. -/
theorem rankAt_swap (hi : i < h.size) (hj : j < h.size) (k : Nat) :
    rankAt (h.swapIfInBounds i j) k =
      if k = i then rankAt h j else if k = j then rankAt h i else rankAt h k := by
  have hget : (h.swapIfInBounds i j)[k]? =
      if k = i then h[j]? else if k = j then h[i]? else h[k]? := by
    rw [Array.swapIfInBounds_def, dif_pos hi, dif_pos hj, Array.getElem?_swap,
      Array.getElem?_eq_getElem hi, Array.getElem?_eq_getElem hj]
    grind
  simp only [rankAt, hget]
  split
  · rfl
  · split <;> rfl

/-- Of two timers one is before the other exactly if its rank is less. -/
theorem isBefore_iff (hnumbers : AreNumbers h.toList) (hi : i < h.size) (hj : j < h.size) :
    h.isBefore i j = true ↔ rankAt h i < rankAt h j := by
  have hnumber {k : Nat} (hk : k < h.size) : h[k].due.isNaN = false :=
    hnumbers _ (Array.getElem_mem_toList hk)
  rw [isBefore, rankAt, rankAt, Array.getElem?_eq_getElem hi, Array.getElem?_eq_getElem hj]
  simp only [decide_eq_true_eq, Option.elim_some, Double.lt_iff_rank_lt, hnumber hi, hnumber hj,
    and_self, true_and]

/-- A swap keeps the timers. -/
theorem swap_perm (h : Timers α) (i j : Nat) : (h.swapIfInBounds i j).toList.Perm h.toList := by
  rw [Array.swapIfInBounds_def]
  split
  · split
    · exact (Array.swap_perm _ _).toList
    · exact .refl _
  · exact .refl _

/-- A swap keeps the times numbers. -/
theorem AreNumbers.swap (hnumbers : AreNumbers h.toList) (i j : Nat) :
    AreNumbers (h.swapIfInBounds i j).toList :=
  fun t ht => hnumbers t ((h.swap_perm i j).mem_iff.mp ht)

end Places

section Rising

/-- What is below a place is not due before the timer there. -/
def IsAboveAll (h : Timers α) (i : Nat) : Prop :=
  ∀ k, 0 < k → k < h.size → (k - 1) / 2 = i → rankAt h i ≤ rankAt h k

/-- A timer that is due before the one above it changes places with it. -/
private theorem IsHeapBut.swap_above (hbut : IsHeapBut h i) (hi : i < h.size) (hpos : 0 < i)
    (hbefore : rankAt h i < rankAt h ((i - 1) / 2)) :
    IsHeapBut (h.swapIfInBounds i ((i - 1) / 2)) ((i - 1) / 2) ∧
      IsAboveAll (h.swapIfInBounds i ((i - 1) / 2)) ((i - 1) / 2) := by
  have habove : (i - 1) / 2 < i := by omega
  have hrank := rankAt_swap hi (Nat.lt_trans habove hi)
  have hsize : (h.swapIfInBounds i ((i - 1) / 2)).size = h.size := Array.size_swapIfInBounds
  -- the other timer below the one that changes places
  have hbeside {k : Nat} (hk : 0 < k) (hlt : k < h.size) (hki : k ≠ i)
      (hup : (k - 1) / 2 = (i - 1) / 2) : rankAt h ((i - 1) / 2) ≤ rankAt h k := by
    rw [← hup]
    exact hbut.others k hk hlt hki (by omega)
  refine ⟨⟨fun k hk hlt hne hup => ?_, fun hpos' k hk hlt hup => ?_⟩, fun k hk hlt hup => ?_⟩
  · rw [hsize] at hlt
    have hki : k ≠ i := by
      rintro rfl
      exact hup rfl
    rw [hrank, hrank, if_neg hki, if_neg hne, if_neg hup]
    by_cases hunder : (k - 1) / 2 = i
    · rw [if_pos hunder]
      exact hbut.around hpos k hk hlt hunder
    · rw [if_neg hunder]
      exact hbut.others k hk hlt hki hunder
  · rw [hsize] at hlt
    have hgrand : rankAt h (((i - 1) / 2 - 1) / 2) ≤ rankAt h ((i - 1) / 2) :=
      hbut.others _ hpos' (by omega) (by omega) (by omega)
    rw [hrank, hrank, if_neg (by omega), if_neg (by omega)]
    by_cases hki : k = i
    · rw [if_pos hki]
      exact hgrand
    · rw [if_neg hki, if_neg (by omega)]
      exact hgrand.trans (hbeside hk hlt hki hup)
  · rw [hsize] at hlt
    rw [hrank, hrank, if_neg (by omega), if_pos rfl]
    by_cases hki : k = i
    · rw [if_pos hki]
      exact hbefore.le
    · rw [if_neg hki, if_neg (by omega)]
      exact hbefore.le.trans (hbeside hk hlt hki hup)

/-- Lifting a timer keeps the timers. -/
theorem rise_perm (h : Timers α) (i : Nat) : (rise h i).toList.Perm h.toList := by
  fun_induction rise h i with
  | case1 => exact .refl _
  | case2 h i _ _ _ ih => exact ih.trans (h.swap_perm _ _)
  | case3 => exact .refl _

/-- A timer rises to where it is in order, if what is below it is. -/
theorem IsHeapBut.isHeap_rise (hbut : IsHeapBut h i) (hi : i < h.size)
    (hnumbers : AreNumbers h.toList) (hbelow : IsAboveAll h i) : IsHeap (rise h i) := by
  fun_induction rise h i with
  | case1 h =>
    intro k hk hlt
    by_cases hup : (k - 1) / 2 = 0
    · rw [hup]
      exact hbelow k hk hlt hup
    · exact hbut.others k hk hlt (by omega) hup
  | case2 h i hpos above hbefore ih =>
    have hlt : (i - 1) / 2 < h.size := by omega
    obtain ⟨hbut', hbelow'⟩ := hbut.swap_above hi (by omega)
      ((isBefore_iff hnumbers hi hlt).mp hbefore)
    exact ih hbut' (by rw [Array.size_swapIfInBounds]; exact hlt) (hnumbers.swap _ _) hbelow'
  | case3 h i hpos above hbefore =>
    have hlt : (i - 1) / 2 < h.size := by omega
    have hle := not_lt.mp fun hlower => hbefore ((isBefore_iff hnumbers hi hlt).mpr hlower)
    intro k hk hlt'
    by_cases hki : k = i
    · rw [hki]
      exact hle
    · by_cases hup : (k - 1) / 2 = i
      · rw [hup]
        exact hbelow k hk hlt' hup
      · exact hbut.others k hk hlt' hki hup

end Rising

section Sinking

/-- A timer changes places with the earlier one below it. -/
private theorem IsHeapBut.swap_below (hbut : IsHeapBut h i) (hj : j < h.size) (hpos : 0 < j)
    (hup : (j - 1) / 2 = i)
    (hleast : ∀ k, 0 < k → k < h.size → (k - 1) / 2 = i → rankAt h j ≤ rankAt h k) :
    IsHeapBut (h.swapIfInBounds i j) j := by
  have hi : i < h.size := by omega
  have hrank := rankAt_swap hi hj
  have hsize : (h.swapIfInBounds i j).size = h.size := Array.size_swapIfInBounds
  refine ⟨fun k hk hlt hne hup' => ?_, fun _ k hk hlt hup' => ?_⟩
  · rw [hsize] at hlt
    rw [hrank, hrank]
    by_cases hki : k = i
    · subst hki
      rw [if_neg (by omega), if_neg (by omega), if_pos rfl]
      exact hbut.around hk j hpos hj hup
    · rw [if_neg hki, if_neg hne]
      by_cases hunder : (k - 1) / 2 = i
      · rw [if_pos hunder]
        exact hleast k hk hlt hunder
      · rw [if_neg hunder, if_neg hup']
        exact hbut.others k hk hlt hki hunder
  · rw [hsize] at hlt
    rw [hup, hrank, hrank, if_pos rfl, if_neg (by omega), if_neg (by omega), ← hup']
    exact hbut.others k hk hlt (by omega) (by omega)

/-- The place of the earlier one of the timers below a place. -/
private theorem least_below (hnumbers : AreNumbers h.toList) (hlt : 2 * i + 1 < h.size) {j : Nat}
    (hj : j = if (2 * i + 1 + 1 < h.size && !h.isBefore (2 * i + 1) (2 * i + 1 + 1)) = true
      then 2 * i + 1 + 1 else 2 * i + 1) :
    j < h.size ∧ 0 < j ∧ (j - 1) / 2 = i ∧
      ∀ k, 0 < k → k < h.size → (k - 1) / 2 = i → rankAt h j ≤ rankAt h k := by
  split at hj
  · rename_i hright
    simp only [Bool.and_eq_true, decide_eq_true_eq, Bool.not_eq_true', Bool.eq_false_iff] at hright
    obtain ⟨hlt', hbefore⟩ := hright
    have hle := not_lt.mp fun hlower => hbefore ((isBefore_iff hnumbers hlt hlt').mpr hlower)
    refine ⟨by omega, by omega, by omega, fun k hk _ hup => ?_⟩
    obtain rfl | rfl : k = 2 * i + 1 ∨ k = j := by omega
    · rw [hj]
      exact hle
    · exact le_rfl
  · rename_i hleft
    refine ⟨by omega, by omega, by omega, fun k hk hlt' hup => ?_⟩
    obtain rfl | hk : k = j ∨ k = 2 * i + 1 + 1 := by omega
    · exact le_rfl
    · have hbefore : h.isBefore (2 * i + 1) (2 * i + 1 + 1) = true := by
        simpa [← hk, hlt'] using hleft
      rw [hj, hk]
      exact ((isBefore_iff hnumbers hlt (hk ▸ hlt')).mp hbefore).le

/-- Letting a timer sink keeps the timers. -/
theorem sink_perm (h : Timers α) (i : Nat) : (sink h i).1.toList.Perm h.toList := by
  fun_induction sink h i with
  | case1 h i _ _ _ ih => exact ih.trans (h.swap_perm _ _)
  | case2 => exact .refl _

/-- A timer that has sunk is at the bottom. -/
theorem IsHeapBut.sink (hbut : IsHeapBut h i) (hi : i < h.size) (hnumbers : AreNumbers h.toList) :
    IsHeapBut (sink h i).1 (sink h i).2 ∧ (sink h i).2 < (sink h i).1.size ∧
      (sink h i).1.size ≤ 2 * (sink h i).2 + 1 := by
  fun_induction Timers.sink h i with
  | case1 h i left hlt below ih =>
    obtain ⟨hj, hpos, hup, hleast⟩ := least_below hnumbers hlt (j := below) rfl
    exact ih (hbut.swap_below hj hpos hup hleast) (by rw [Array.size_swapIfInBounds]; exact hj)
      (hnumbers.swap _ _)
  | case2 h i left hlt => exact ⟨hbut, hi, Nat.le_of_not_lt hlt⟩

end Sinking

section Keeping

/-- The heap has these timers, and their times are numbers. -/
structure Keeps (h : Timers α) (ts : List (Timer α)) : Prop where
  perm : h.toList.Perm ts
  numbers : AreNumbers ts
  isHeap : IsHeap h

/-- An empty heap has no timers. -/
theorem keeps_empty : Keeps (#[] : Timers α) [] where
  perm := .refl _
  numbers := fun _ ht => (nomatch ht)
  isHeap := fun _ _ hlt => absurd hlt (Nat.not_lt_zero _)

/-- The order of the timers does not count. -/
theorem Keeps.congr (hkeeps : Keeps h ts) (hperm : ts.Perm rest) : Keeps h rest where
  perm := hkeeps.perm.trans hperm
  numbers := fun t ht => hkeeps.numbers t (hperm.mem_iff.mpr ht)
  isHeap := hkeeps.isHeap

/-- A timer that is put in comes to the others. -/
theorem Keeps.insert (hkeeps : Keeps h ts) (ht : t.due.isNaN = false) :
    Keeps (h.insert t) (t :: ts) := by
  have hpush : (h.push t).toList.Perm (t :: ts) := by
    rw [Array.toList_push]
    exact (List.perm_append_singleton t h.toList).trans (hkeeps.perm.cons t)
  have hnumbers : AreNumbers (t :: ts) := by
    rintro u hu
    rcases List.mem_cons.mp hu with rfl | hu
    · exact ht
    · exact hkeeps.numbers u hu
  have hrank {k : Nat} (hk : k < h.size) : rankAt (h.push t) k = rankAt h k := by
    rw [rankAt, rankAt, Array.getElem?_push, if_neg (by omega)]
  have hbut : IsHeapBut (h.push t) h.size := by
    refine ⟨fun k hk hlt hne _ => ?_, fun _ k hk hlt hup => ?_⟩
    · rw [Array.size_push] at hlt
      rw [hrank (by omega), hrank (by omega)]
      exact hkeeps.isHeap k hk (by omega)
    · rw [Array.size_push] at hlt
      omega
  have hbelow : IsAboveAll (h.push t) h.size := by
    intro k hk hlt hup
    rw [Array.size_push] at hlt
    omega
  exact ⟨(rise_perm _ _).trans hpush, hnumbers, hbut.isHeap_rise (by rw [Array.size_push]; omega)
    (fun u hu => hnumbers u (hpush.mem_iff.mp hu)) hbelow⟩

/-- No timer is due before the first one. -/
theorem IsHeap.rankAt_zero_le (hheap : IsHeap h) {k : Nat} (hk : k < h.size) :
    rankAt h 0 ≤ rankAt h k := by
  induction k using Nat.strong_induction_on with
  | _ k ih =>
    cases k with
    | zero => exact le_rfl
    | succ k =>
      have hhalf : k / 2 < h.size := by omega
      exact (ih (k / 2) (by omega) hhalf).trans (hheap (k + 1) (Nat.succ_pos k) hk)

/-- The first timer of the heap is due before all others. -/
theorem Keeps.first_le (hkeeps : Keeps h ts) (hfirst : h[0]? = some t) :
    t ∈ ts ∧ ∀ u ∈ ts, Double.rank t.due ≤ Double.rank u.due := by
  refine ⟨hkeeps.perm.mem_iff.mp (Array.mem_toList_iff.mpr (Array.mem_of_getElem? hfirst)), ?_⟩
  intro u hu
  obtain ⟨k, hk⟩ := List.mem_iff_getElem?.mp (hkeeps.perm.mem_iff.mpr hu)
  rw [Array.getElem?_toList] at hk
  rw [← rankAt_of_getElem? hfirst, ← rankAt_of_getElem? hk]
  exact hkeeps.isHeap.rankAt_zero_le (Array.getElem?_eq_some_iff.mp hk).1

/-- The last timer in the place of the first one. -/
private theorem replaced_perm {last : Timer α} (hfirst : h[0]? = some t)
    (hlast : h.back? = some last) :
    (t :: (h.pop.setIfInBounds 0 last).toList).Perm h.toList := by
  rw [Array.toList_setIfInBounds, Array.toList_pop]
  rw [← Array.getElem?_toList, ← List.head?_eq_getElem?] at hfirst
  rw [← Array.getLast?_toList] at hlast
  generalize h.toList = l at hfirst hlast
  obtain ⟨tail, rfl⟩ := List.head?_eq_some_iff.mp hfirst
  rcases List.eq_nil_or_concat tail with rfl | ⟨middle, final, rfl⟩
  · exact .refl _
  · rw [List.concat_eq_append, ← List.cons_append] at hlast ⊢
    rw [List.getLast?_concat] at hlast
    obtain rfl := Option.some.inj hlast
    rw [List.dropLast_concat]
    exact (List.perm_append_singleton final middle).symm.cons t

/-- What is left without the first timer is all others. -/
theorem Keeps.removeFirst (hkeeps : Keeps h (t :: ts)) (hfirst : h[0]? = some t) :
    Keeps h.removeFirst ts := by
  have hsize : 0 < h.size := (Array.getElem?_eq_some_iff.mp hfirst).1
  have hlast : h.back? = some h[h.size - 1] := by
    rw [Array.back?_eq_getElem?, Array.getElem?_eq_getElem]
  have hremoved : h.removeFirst = rise (sink (h.pop.setIfInBounds 0 h[h.size - 1]) 0).1
      (sink (h.pop.setIfInBounds 0 h[h.size - 1]) 0).2 := by
    rw [Timers.removeFirst, hlast]
  rw [hremoved]
  have hperm := replaced_perm hfirst hlast
  have hperm' : (h.pop.setIfInBounds 0 h[h.size - 1]).toList.Perm ts :=
    List.perm_cons t |>.mp (hperm.trans hkeeps.perm)
  have hnumbers : AreNumbers ts := fun u hu => hkeeps.numbers u (List.mem_cons_of_mem t hu)
  have hbut : IsHeapBut (h.pop.setIfInBounds 0 h[h.size - 1]) 0 := by
    refine ⟨fun k hk hlt hne hup => ?_, fun hpos => absurd hpos (Nat.lt_irrefl 0)⟩
    have hrank {k : Nat} (hk : 0 < k) (hlt : k < h.size - 1) :
        rankAt (h.pop.setIfInBounds 0 h[h.size - 1]) k = rankAt h k := by
      rw [rankAt, rankAt, Array.getElem?_setIfInBounds, if_neg (by omega), Array.getElem?_pop,
        if_pos hlt]
    rw [Array.size_setIfInBounds, Array.size_pop] at hlt
    rw [hrank (by omega) (by omega), hrank hk hlt]
    exact hkeeps.isHeap k hk (by omega)
  generalize h.pop.setIfInBounds 0 h[h.size - 1] = g at hperm' hbut
  have hnumbers' : AreNumbers g.toList := fun u hu => hnumbers u (hperm'.mem_iff.mp hu)
  refine ⟨((rise_perm _ _).trans (sink_perm g 0)).trans hperm', hnumbers, ?_⟩
  rcases Nat.eq_zero_or_pos g.size with hempty | hpos
  · intro k hk hlt
    have hsize' := ((rise_perm (sink g 0).1 (sink g 0).2).trans (sink_perm g 0)).length_eq
    simp only [Array.length_toList] at hsize'
    omega
  · obtain ⟨hbut', hlt, hbottom⟩ := hbut.sink hpos hnumbers'
    refine hbut'.isHeap_rise hlt (fun u hu => hnumbers' u ((sink_perm g 0).mem_iff.mp hu)) ?_
    intro k hk hlt' hup
    omega

/-- Timers are taken as long as a condition holds that goes for earlier timers if it goes for later
ones. In the end it holds for what has been taken, and not for what is left. -/
theorem Keeps.takeWhile (hkeeps : Keeps h ts) {p : Timer α → Bool}
    (hp : ∀ s ∈ ts, ∀ t ∈ ts, Double.rank s.due ≤ Double.rank t.due → p t = true → p s = true)
    {n : Nat} (hn : ts.length ≤ n) :
    Keeps (h.takeWhile p n).1 (ts.filter fun t => !p t) ∧
      (h.takeWhile p n).2.Perm (ts.filter p) := by
  induction n generalizing h ts with
  | zero =>
    obtain rfl := List.eq_nil_of_length_eq_zero (Nat.le_zero.mp hn)
    exact ⟨hkeeps, .refl _⟩
  | succ n ih =>
    cases hfirst : h[0]? with
    | none =>
      have hempty : ts = [] := by
        have hsize : h.size ≤ 0 := Array.getElem?_eq_none_iff.mp hfirst
        have hlength := hkeeps.perm.length_eq
        rw [Array.length_toList] at hlength
        exact List.eq_nil_of_length_eq_zero (by omega)
      subst hempty
      simp only [Timers.takeWhile, hfirst]
      exact ⟨hkeeps, .refl _⟩
    | some t =>
      obtain ⟨hmem, hle⟩ := hkeeps.first_le hfirst
      cases hpt : p t with
      | false =>
        have hnone : ∀ u ∈ ts, p u = false := by
          intro u hu
          by_contra hpu
          have hpt' := hp t hmem u hu (hle u hu) (by simpa using hpu)
          rw [hpt] at hpt'
          cases hpt'
        simp only [Timers.takeWhile, hfirst, hpt, Bool.false_eq_true, if_false]
        rw [List.filter_eq_self.mpr fun u hu => by rw [hnone u hu]; rfl,
          List.filter_eq_nil_iff.mpr fun u hu => by rw [hnone u hu]; exact Bool.false_ne_true]
        exact ⟨hkeeps, .refl _⟩
      | true =>
        obtain ⟨before, after, rfl⟩ := List.append_of_mem hmem
        have hmoved : (before ++ t :: after).Perm (t :: (before ++ after)) := List.perm_middle
        have hleft := (hkeeps.congr hmoved).removeFirst hfirst
        have hlength := hmoved.length_eq
        rw [List.length_cons] at hlength
        obtain ⟨hkept, htaken⟩ := ih hleft
          (fun s hs u hu => hp s (hmoved.mem_iff.mpr (List.mem_cons_of_mem t hs)) u
            (hmoved.mem_iff.mpr (List.mem_cons_of_mem t hu))) (by omega)
        simp only [Timers.takeWhile, hfirst, hpt, if_true]
        refine ⟨hkept.congr ?_, ?_⟩
        · have hfilter := (hmoved.filter fun u => !p u).symm
          rwa [List.filter_cons_of_neg (by simp [hpt])] at hfilter
        · have hfilter := (hmoved.filter p).symm
          rw [List.filter_cons_of_pos hpt] at hfilter
          exact (htaken.cons t).trans hfilter

/-- A timer that is due before another one is due when this is. -/
theorem isDue_of_le {s : Timer α} {time later : Float} (hs : s.due.isNaN = false)
    (ht : t.due.isNaN = false) (hle : Double.rank s.due ≤ Double.rank t.due)
    (hdue : t.isDue time later = true) : s.isDue time later = true := by
  simp only [Timer.isDue, Bool.or_eq_true, Bool.not_eq_true', decide_eq_true_eq,
    decide_eq_false_iff_not] at hdue ⊢
  refine hdue.imp (fun hbefore => ?_) fun hafter hlater => hafter ?_
  · obtain ⟨⟨_, htime⟩, hrank⟩ := Double.le_iff_rank_le.mp hbefore
    exact Double.le_iff_rank_le.mpr ⟨⟨hs, htime⟩, hle.trans hrank⟩
  · obtain ⟨⟨hnumber, _⟩, hrank⟩ := Double.le_iff_rank_le.mp hlater
    exact Double.le_iff_rank_le.mpr ⟨⟨hnumber, ht⟩, hrank.trans hle⟩

/-- At any time those timers are taken that are due, and the others stay. -/
theorem Keeps.takeDue (hkeeps : Keeps h (due ++ rest)) {time later : Float}
    (hdue : ∀ t ∈ due, t.isDue time later = true)
    (hrest : ∀ t ∈ rest, t.isDue time later = false) :
    Keeps (h.takeDue time later).1 rest ∧ (h.takeDue time later).2.Perm due := by
  have hlength := hkeeps.perm.length_eq
  rw [Array.length_toList] at hlength
  obtain ⟨hkept, htaken⟩ := hkeeps.takeWhile (p := Timer.isDue time later)
    (fun s hs t ht hle hdue =>
      isDue_of_le (hkeeps.numbers s hs) (hkeeps.numbers t ht) hle hdue) hlength.ge
  refine ⟨hkept.congr ?_, htaken.trans ?_⟩
  · rw [List.filter_append, List.filter_eq_nil_iff.mpr fun t ht => by simp [hdue t ht],
      List.filter_eq_self.mpr fun t ht => by simp [hrest t ht]]
    exact .refl _
  · rw [List.filter_append, List.filter_eq_self.mpr hdue,
      List.filter_eq_nil_iff.mpr fun t ht => by simp [hrest t ht], List.append_nil]

/-- Where somebody waits for each timer, none is dropped. -/
theorem Keeps.dropIdle_eq (hkeeps : Keeps h ts) (howned : ∀ t ∈ ts, t.owner.isSome = true) :
    h.dropIdle = h := by
  unfold dropIdle
  cases hsize : h.size with
  | zero => rfl
  | succ n =>
    have hfirst : h[0]? = some h[0] := Array.getElem?_eq_getElem _
    have howner : h[0].owner.isNone = false := by
      rw [← Option.not_isSome, howned _ (hkeeps.first_le hfirst).1]
      rfl
    simp only [Timers.takeWhile, hfirst, howner, Bool.false_eq_true, if_false]

end Keeping

end Peering.Timers
