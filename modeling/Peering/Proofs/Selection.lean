import Peering.Proofs.Edits
import Peering.Proofs.Succession
import Mathlib.Order.Monotone.Basic

/-!
# A part of the registrations

To leave some registrations out of a run is to leave out the calls for them and the turns of their
walks. The walks that remain have other numbers then, and the registrations other generations, since
both are given out in order. This file says what remains of a list of registrations and of a run,
and shows that an edit of the registrations is the same edit of the part that remains.
-/

namespace Peering

open Registration

/-- Which registrations count, by address and generation. -/
abbrev Choice := Value × Value → Bool

/-- All registrations count. -/
def Choice.all : Choice := fun _ => true

/-- The value with another number, if it is a number. -/
def Value.renumbered (ρ : Int → Int) : Value → Value
  | .int g => .int (ρ g)
  | v => v

/-- The walk of the registration with another generation. -/
def Walk.renumbered (ρ : Int → Int) (w : Walk) : Walk :=
  { w with generation := w.generation.renumbered ρ }

/-- The answer with other generations. -/
def Answer.renumbered (ρ : Int → Int) : Answer → Answer
  | .walk w => .walk (w.map (Walk.renumbered ρ))
  | a => a

/-- The effect for the registration with another generation. -/
def Effect.renumbered (ρ : Int → Int) : Effect → Effect
  | .changed a g old new => .changed a (g.renumbered ρ) old new
  | .established a g => .established a (g.renumbered ρ)
  | .sleep a g seconds => .sleep a (g.renumbered ρ) seconds
  | .pause a g seconds => .pause a (g.renumbered ρ) seconds
  | f => f

/-- Both renumber the generations below a bound alike. -/
def AgreeBelow (n : Int) (ρ' ρ : Int → Int) : Prop := ∀ g < n, ρ' g = ρ g

/-- A renumbering agrees with itself. -/
theorem AgreeBelow.refl (n : Int) (ρ : Int → Int) : AgreeBelow n ρ ρ := fun _ _ => rfl

/-- Agreement below bounds is transitive. -/
theorem AgreeBelow.trans {m n : Int} {ρ ρ' ρ'' : Int → Int} (h' : AgreeBelow m ρ'' ρ')
    (h : AgreeBelow n ρ' ρ) (hnm : n ≤ m) : AgreeBelow n ρ'' ρ :=
  fun g hg => (h' g (Int.lt_of_lt_of_le hg hnm)).trans (h g hg)

/-- A number for the next generation changes none of those before it. -/
theorem agreeBelow_update (n : Int) (ρ : Int → Int) (k : Int) :
    AgreeBelow n (Function.update ρ n k) ρ :=
  fun _ hg => Function.update_of_ne (Int.ne_of_lt hg) _ _

/-- What walks ask for: the calls of observers and the delays, in order. -/
def asked (effects : List Effect) : List Effect := effects.filter fun f => !f.isOfRequest

section Lists

variable {α β : Type} {p : α → Bool} {l : List α} {i : Nat} {x y : α}

/-- How many elements before a place are among the chosen ones. -/
def rank (p : α → Bool) (l : List α) (i : Nat) : Nat := (l.take i).countP p

/-- A rank in a list of images is a rank among what they are images of. -/
theorem rank_map (f : β → α) (l : List β) (i : Nat) :
    rank p (l.map f) i = rank (fun x => p (f x)) l i := by
  simp only [rank, ← List.map_take, List.countP_map]
  rfl

/-- What comes behind a place does not count for its rank. -/
theorem rank_append (l : List α) {m : List α} (hi : i ≤ l.length) :
    rank p (l ++ m) i = rank p l i := by
  rw [rank, List.take_append_of_le_length hi, rank]

/-- Where all count, ranks are places. -/
theorem rank_eq_self (hp : ∀ x ∈ l, p x = true) (hi : i ≤ l.length) : rank p l i = i := by
  have hall : (l.take i).countP p = (l.take i).length :=
    List.countP_eq_length.mpr fun x hx => hp x (List.mem_of_mem_take hx)
  rw [rank, hall, List.length_take, Nat.min_eq_left hi]

/-- A chosen element is among the chosen ones at its rank. -/
theorem getElem?_filter_rank (hx : l[i]? = some x) (hp : p x = true) :
    (l.filter p)[rank p l i]? = some x := by
  induction l generalizing i with
  | nil => simp at hx
  | cons a l ih =>
    cases i with
    | zero =>
      obtain rfl : a = x := by simpa using hx
      simp [rank, hp]
    | succ i =>
      have htail : (l.filter p)[rank p l i]? = some x := ih (by simpa using hx)
      by_cases ha : p a = true
      · simpa [rank, ha] using htail
      · simpa [rank, ha] using htail

/-- Setting a chosen element sets it among the chosen ones. -/
theorem filter_set_of_pos (hx : l[i]? = some x) (hp : p x = true) (hy : p y = true) :
    (l.set i y).filter p = (l.filter p).set (rank p l i) y := by
  induction l generalizing i with
  | nil => simp at hx
  | cons a l ih =>
    cases i with
    | zero =>
      obtain rfl : a = x := by simpa using hx
      simp [rank, hp, hy]
    | succ i =>
      have htail : (l.set i y).filter p = (l.filter p).set (rank p l i) y :=
        ih (by simpa using hx)
      by_cases ha : p a = true
      · simpa [rank, ha] using htail
      · simpa [rank, ha] using htail

/-- Setting an element that is not chosen changes nothing among the chosen ones. -/
theorem filter_set_of_neg (hx : l[i]? = some x) (hp : p x = false) (hy : p y = false) :
    (l.set i y).filter p = l.filter p := by
  induction l generalizing i with
  | nil => rfl
  | cons a l ih =>
    cases i with
    | zero =>
      obtain rfl : a = x := by simpa using hx
      simp [hp, hy]
    | succ i =>
      have htail : (l.set i y).filter p = l.filter p := ih (by simpa using hx)
      by_cases ha : p a = true
      · simpa [ha] using htail
      · simpa [ha] using htail

end Lists

/-- The walks of the registrations that count, under other generations. -/
def Walk.select (K : Choice) (ρ : Int → Int) (ws : List Walk) : List Walk :=
  (ws.filter fun w => K w.serves).map (Walk.renumbered ρ)

/-- The entries with the walks of registrations that count, under the numbers that these walks have
among themselves. The registrations that walks were started for are given in order. -/
def Table.select (K : Choice) (served : List (Value × Value)) (t : Table Nat) : Table Nat :=
  (t.filter fun entry => (served[entry.2]?).any K).map fun entry =>
    (entry.1, rank K served entry.2)

namespace Walk

variable {K : Choice} {ρ : Int → Int} {ws : List Walk} {i : Nat} {w u : Walk}

/-- A walk that goes on serves what it has served. -/
theorem Continues.serves_eq (h : u.Continues w) : u.serves = w.serves :=
  Prod.ext h.address_eq h.generation_eq

/-- Where the registration that a walk was started for counts, there is such a walk. -/
theorem exists_of_any_serves (h : ((ws.map serves)[i]?).any K = true) :
    ∃ w, ws[i]? = some w ∧ K w.serves = true := by
  rw [List.getElem?_map, Option.any_map] at h
  exact (Option.any_eq_true _ _).mp h

/-- A walk that counts is found under its other number. -/
theorem getElem?_select (hw : ws[i]? = some w) (hK : K w.serves = true) :
    (select K ρ ws)[rank K (ws.map serves) i]? = some (w.renumbered ρ) := by
  rw [select, rank_map, List.getElem?_map, getElem?_filter_rank hw hK, Option.map_some]

/-- A walk that counts is replaced under its other number. -/
theorem select_set_of_pos (hw : ws[i]? = some w) (hK : K w.serves = true)
    (hserves : u.serves = w.serves) :
    select K ρ (ws.set i u) =
      (select K ρ ws).set (rank K (ws.map serves) i) (u.renumbered ρ) := by
  have hK' : K u.serves = true := hserves ▸ hK
  have hset := filter_set_of_pos (p := fun w => K w.serves) hw hK hK'
  rw [select, hset, List.map_set, rank_map, select]

/-- Replacing a walk that does not count changes nothing. -/
theorem select_set_of_neg (hw : ws[i]? = some w) (hK : K w.serves = false)
    (hserves : u.serves = w.serves) : select K ρ (ws.set i u) = select K ρ ws := by
  have hK' : K u.serves = false := hserves ▸ hK
  have hset := filter_set_of_neg (p := fun w => K w.serves) hw hK hK'
  rw [select, hset, select]

/-- Walks are selected one by one. -/
theorem select_append (ws us : List Walk) :
    select K ρ (ws ++ us) = select K ρ ws ++ select K ρ us := by
  simp [select]

/-- A walk whose registration counts is selected. -/
theorem select_singleton_of_pos (hK : K w.serves = true) :
    select K ρ [w] = [w.renumbered ρ] := by
  simp only [select, List.filter_cons, hK, if_true, List.filter_nil, List.map_cons, List.map_nil]

/-- A walk whose registration does not count is not selected. -/
theorem select_singleton_of_neg (hK : K w.serves = false) : select K ρ [w] = [] := by
  simp only [select, List.filter_cons, hK, Bool.false_eq_true, if_false, List.filter_nil,
    List.map_nil]

/-- As many walks are selected as have registrations that count. -/
theorem length_select (ws : List Walk) :
    (select K ρ ws).length = (ws.map serves).countP K := by
  rw [select, List.length_map, List.countP_map, List.countP_eq_length_filter]
  rfl

/-- Generations that do not occur may be renumbered as one likes. -/
theorem select_congr {ρ' : Int → Int}
    (h : ∀ w ∈ ws, w.generation.renumbered ρ' = w.generation.renumbered ρ) :
    select K ρ' ws = select K ρ ws := by
  apply List.map_congr_left
  intro w hw
  simp only [renumbered, h w (List.mem_of_mem_filter hw)]

end Walk

namespace Table

variable {K : Choice} {served : List (Value × Value)} {t : Table Nat} {v : Value}

/-- The numbers selected are those of walks that count, counted among these. -/
theorem values_select (t : Table Nat) :
    (select K served t).values =
      (t.values.filter fun i => (served[i]?).any K).map (rank K served) := by
  simp only [select, values, List.map_map, List.filter_map]
  rfl

/-- Entries are selected one by one. -/
theorem select_append (t u : Table Nat) :
    select K served (t ++ u) = select K served t ++ select K served u := by
  simp [select]

/-- Taking out an entry commutes with the selection. -/
theorem select_erase (t : Table Nat) (v : Value) :
    select K served (t.erase v) = (select K served t).erase v := by
  simp only [select, erase, List.filter_map, List.filter_filter]
  congr 1
  apply List.filter_congr
  intro entry _
  exact Bool.and_comm _ _

/-- What is found at an address is found there under its other number, if all that stands there
counts. -/
theorem get?_select (h : ∀ entry ∈ t, entry.1.eqv v = true → (served[entry.2]?).any K = true) :
    (select K served t).get? v = (t.get? v).map (rank K served) := by
  induction t with
  | nil => rfl
  | cons entry t ih =>
    have hrest := ih fun other hother => h other (List.mem_cons_of_mem _ hother)
    cases hv : entry.1.eqv v with
    | true =>
      have hK := h entry List.mem_cons_self hv
      simp [select, get?, hK, hv]
    | false =>
      have hskip : Table.get? (entry :: t) v = Table.get? t v := by simp [get?, hv]
      rw [hskip, ← hrest]
      cases hK : (served[entry.2]?).any K with
      | true => simp [select, get?, hK, hv]
      | false => simp [select, get?, hK]

/-- If nothing counts that stands at an address, nothing is found there. -/
theorem erase_select (h : ∀ entry ∈ t, entry.1.eqv v = true → (served[entry.2]?).any K = false) :
    (select K served t).erase v = select K served t := by
  rw [erase, List.filter_eq_self]
  intro entry hentry
  obtain ⟨original, hmem, rfl⟩ := List.mem_map.mp hentry
  obtain ⟨hmem, hK⟩ := List.mem_filter.mp hmem
  cases hv : original.1.eqv v with
  | false => rfl
  | true =>
    rw [h original hmem hv] at hK
    cases hK

/-- Where an address does not stand, it does not stand among what counts. -/
theorem contains_select (h : t.contains v = false) : (select K served t).contains v = false := by
  rw [Bool.eq_false_iff] at h ⊢
  intro hcontains
  obtain ⟨entry, hentry, hkey⟩ := List.any_eq_true.mp hcontains
  obtain ⟨original, hmem, rfl⟩ := List.mem_map.mp hentry
  exact h (List.any_eq_true.mpr ⟨original, List.mem_of_mem_filter hmem, hkey⟩)

/-- Walks that are started later change no numbers. -/
theorem select_served_append (h : ∀ entry ∈ t, entry.2 < served.length)
    (more : List (Value × Value)) : select K (served ++ more) t = select K served t := by
  have hfilter : (t.filter fun entry => ((served ++ more)[entry.2]?).any K) =
      t.filter fun entry => (served[entry.2]?).any K := by
    apply List.filter_congr
    intro entry hentry
    rw [List.getElem?_append_left (h entry hentry)]
  rw [select, hfilter, select]
  apply List.map_congr_left
  intro entry hentry
  have hlt := h entry (List.mem_of_mem_filter hentry)
  rw [rank_append _ (Nat.le_of_lt hlt)]

end Table

namespace Roster

variable {K : Choice} {ρ : Int → Int} {served : List (Value × Value)} {r r' : Roster} {i : Nat}

/-- A request for a cancellation changes nothing of what walks serve. -/
theorem serves_cancel (r : Roster) (i : Nat) :
    (r.cancel i).1.walks.map Walk.serves = r.walks.map Walk.serves := by
  have hunstopped (ws : List Walk) :
      (ws.map Walk.unstopped).map Walk.serves = ws.map Walk.serves := by
    rw [List.map_map]
    rfl
  rw [← hunstopped, (r.cancel_eq i).2.1, hunstopped]

/-- Requests for cancellation change no registration of a walk. -/
theorem serves_cancelAll (r : Roster) (numbers : List Nat) :
    (r.cancelAll numbers).1.walks.map Walk.serves = r.walks.map Walk.serves := by
  induction numbers generalizing r with
  | nil => rfl
  | cons i rest ih => exact (ih (r.cancel i).1).trans (r.serves_cancel i)

/-- Cancelling a walk that counts cancels it under its other number. -/
private theorem select_cancel_of_pos (hserved : r.walks.map Walk.serves = served)
    (hwalks : r'.walks = Walk.select K ρ r.walks) (hK : (served[i]?).any K = true) :
    (r'.cancel (rank K served i)).1.walks = Walk.select K ρ (r.cancel i).1.walks := by
  subst hserved
  obtain ⟨w, hw, hK'⟩ := Walk.exists_of_any_serves hK
  have hw' := Walk.getElem?_select (ρ := ρ) hw hK'
  rw [← hwalks] at hw'
  have hset := Walk.select_set_of_pos (ρ := ρ) (u := { w with stopping := true }) hw hK' rfl
  rw [← hwalks] at hset
  have hrunning : (w.renumbered ρ).isRunning = w.isRunning := rfl
  simp only [cancel, walk?, hw, hw', hrunning]
  cases w.isRunning with
  | true => exact hset.symm
  | false => exact hwalks

/-- Cancelling a walk that does not count changes nothing among those that do. -/
private theorem select_cancel_of_neg (hK : ((r.walks.map Walk.serves)[i]?).any K = false) :
    Walk.select K ρ (r.cancel i).1.walks = Walk.select K ρ r.walks := by
  rw [List.getElem?_map, Option.any_map] at hK
  cases hw : r.walks[i]? with
  | none => simp only [cancel, walk?, hw]
  | some w =>
    have hK' : K w.serves = false := by simpa [hw] using hK
    have hset := Walk.select_set_of_neg (ρ := ρ) (u := { w with stopping := true }) hw hK' rfl
    simp only [cancel, walk?, hw]
    cases w.isRunning with
    | true => exact hset
    | false => rfl

/-- Cancelling walks cancels those of them that count, under their other numbers. -/
theorem select_cancelAll (numbers : List Nat) (hserved : r.walks.map Walk.serves = served)
    (hwalks : r'.walks = Walk.select K ρ r.walks) :
    (r'.cancelAll ((numbers.filter fun i => (served[i]?).any K).map (rank K served))).1.walks =
      Walk.select K ρ (r.cancelAll numbers).1.walks := by
  induction numbers generalizing r r' with
  | nil => exact hwalks
  | cons i rest ih =>
    have hserved' := (r.serves_cancel i).trans hserved
    cases hK : (served[i]?).any K with
    | true =>
      simp only [List.filter_cons, hK, if_true, List.map_cons]
      exact ih hserved' (select_cancel_of_pos hserved hwalks hK)
    | false =>
      simp only [List.filter_cons, hK, Bool.false_eq_true, if_false]
      subst hserved
      exact ih hserved' (hwalks.trans (select_cancel_of_neg hK).symm)

end Roster

namespace Registration

variable {l : List Registration} {v : Value} {r : Registration} {K : Choice} {ρ : Int → Int}

/-- The registration with another generation. -/
def renumbered (ρ : Int → Int) (r : Registration) : Registration :=
  { r with generation := ρ r.generation }

/-- The registrations that count, with other generations. -/
def select (K : Choice) (ρ : Int → Int) (l : List Registration) : List Registration :=
  (l.filter fun r => K r.start.values).map (renumbered ρ)

/-- Where addresses are distinct, what is found among some registrations is what is found at
all, if it is one of them. -/
theorem at?_filter {q : Registration → Bool} (hl : (l.map address).Nodup) (v : Value) :
    at? (l.filter q) v = (at? l v).filter q := by
  induction l with
  | nil => rfl
  | cons r l ih =>
    obtain ⟨hr, hl'⟩ := List.nodup_cons.mp hl
    have hrest := ih hl'
    cases hv : matchesAt v r with
    | false =>
      by_cases hq : q r = true
      · simpa [at?, hv, hq] using hrest
      · simpa [at?, hv, hq] using hrest
    | true =>
      -- no other registration is found at the address, so what follows is of no account
      have hnone : at? l v = none := by
        rw [at?_eq_none]
        intro s hs heq
        have hrs : r.address = s.address := Value.text.inj ((matchesAt_iff.mp hv).symm.trans heq)
        exact hr (hrs ▸ List.mem_map_of_mem hs)
      have hfound : at? (r :: l) v = some r := by simp [at?, hv]
      rw [hfound, Option.filter_some]
      by_cases hq : q r = true
      · simp [at?, hv, hq]
      · have hskip : (r :: l).filter q = l.filter q := by simp [hq]
        rw [hskip, hrest, hnone, if_neg hq]
        rfl

/-- A registration is found among those selected exactly if it counts. -/
theorem at?_select (hl : (l.map address).Nodup) (v : Value) :
    at? (select K ρ l) v =
      ((at? l v).filter fun r => K r.start.values).map (renumbered ρ) := by
  rw [← at?_filter hl]
  simp only [select, at?, List.find?_map]
  rfl

/-- A registration that counts is found under its other generation. -/
theorem at?_select_of_pos (hl : (l.map address).Nodup)
    (hv : ∀ r, at? l v = some r → K r.start.values = true) :
    at? (select K ρ l) v = (at? l v).map (renumbered ρ) := by
  rw [at?_select hl]
  congr 1
  cases hr : at? l v with
  | none => rfl
  | some r => simp [hv r hr]

/-- A registration that does not count is not found. -/
theorem at?_select_of_neg (hl : (l.map address).Nodup)
    (hv : ∀ r, at? l v = some r → K r.start.values = false) :
    at? (select K ρ l) v = none := by
  rw [at?_select hl]
  cases hr : at? l v with
  | none => rfl
  | some r => simp [hv r hr]

/-- Registrations are selected one by one. -/
theorem select_append (l m : List Registration) :
    select K ρ (l ++ m) = select K ρ l ++ select K ρ m := by
  simp [select]

/-- A registration that counts is selected. -/
theorem select_singleton_of_pos (hK : K r.start.values = true) :
    select K ρ [r] = [r.renumbered ρ] := by
  simp only [select, List.filter_cons, hK, if_true, List.filter_nil, List.map_cons, List.map_nil]

/-- A registration that does not count is not selected. -/
theorem select_singleton_of_neg (hK : K r.start.values = false) : select K ρ [r] = [] := by
  simp only [select, List.filter_cons, hK, Bool.false_eq_true, if_false, List.filter_nil,
    List.map_nil]

/-- Taking out a registration commutes with the selection. -/
theorem select_without (l : List Registration) (v : Value) :
    select K ρ (without l v) = without (select K ρ l) v := by
  simp only [select, without, List.filter_map, List.filter_filter]
  congr 1
  apply List.filter_congr
  intro r _
  exact Bool.and_comm _ _

/-- Changing registrations, but not how they were made, changes the chosen ones. -/
theorem select_adjust {g : Registration → Registration} (hstart : ∀ r, (g r).start = r.start)
    (hg : ∀ r, (g r).renumbered ρ = g (r.renumbered ρ)) (l : List Registration) (v : Value) :
    select K ρ (adjust l v g) = adjust (select K ρ l) v g := by
  have hkeep (r : Registration) :
      K (if matchesAt v r then g r else r).start.values = K r.start.values := by
    split
    · rw [hstart]
    · rfl
  simp only [select, adjust, List.filter_map, List.map_map, Function.comp_def, hkeep]
  apply List.map_congr_left
  intro r _
  have hmatch : matchesAt v (r.renumbered ρ) = matchesAt v r := rfl
  rw [hmatch]
  split
  · exact hg r
  · rfl

/-- With nothing at an address there is nothing to take out there. -/
theorem without_of_none (h : at? l v = none) : without l v = l := by
  rw [without, List.filter_eq_self]
  intro r hr
  have hno := List.find?_eq_none.mp h r hr
  simpa using hno

/-- With nothing at an address there is nothing to change there. -/
theorem adjust_of_none (h : at? l v = none) (g : Registration → Registration) :
    adjust l v g = l := by
  rw [adjust]
  refine (List.map_congr_left fun r hr => ?_).trans (List.map_id l)
  have hno := List.find?_eq_none.mp h r hr
  simp [hno]

/-- The registrations after a session has been written at an address, if one has. -/
def rewritten (l : List Registration) (v : Value) : Option Session → List Registration
  | none => l
  | some s => adjust l v fun r => { r with session := s }

/-- Writing a session commutes with the selection. -/
theorem select_rewritten (l : List Registration) (v : Value) (s? : Option Session) :
    select K ρ (rewritten l v s?) = rewritten (select K ρ l) v s? := by
  cases s? with
  | none => rfl
  | some s =>
    exact select_adjust (g := fun r => { r with session := s }) (fun _ => rfl) (fun _ => rfl) l v

/-- Writing a session makes no other registrations. -/
theorem map_start_rewritten (l : List Registration) (v : Value) (s? : Option Session) :
    (rewritten l v s?).map Registration.start = l.map Registration.start := by
  cases s? with
  | none => rfl
  | some s => exact map_start_adjust fun _ => rfl

/-- With nothing at an address no session is written there. -/
theorem rewritten_of_none (h : at? l v = none) (s? : Option Session) : rewritten l v s? = l := by
  cases s? with
  | none => rfl
  | some s => exact adjust_of_none h _

/-- Generations that do not occur may be renumbered as one likes. -/
theorem select_congr {ρ' : Int → Int} (h : ∀ r ∈ l, ρ' r.generation = ρ r.generation) :
    select K ρ' l = select K ρ l := by
  apply List.map_congr_left
  intro r hr
  simp only [renumbered, h r (List.mem_of_mem_filter hr)]

section Columns

variable {α : Type} {f : Registration → α} (hf : ∀ r, f (r.renumbered ρ) = f r)

include hf

/-- What does not show generations is the same under other generations. -/
theorem column_map_renumbered (l : List Registration) :
    column (l.map (renumbered ρ)) f = column l f := by
  simp only [column, List.map_map, Function.comp_def, hf]
  rfl

/-- What is required at an address does not depend on generations. -/
theorem require_column_renumbered {l' : List Registration}
    (h : at? l' v = (at? l v).map (renumbered ρ)) (missing : Value → EngineError) :
    (column l' f).require v missing = (column l f).require v missing := by
  cases hr : at? l v with
  | none =>
    rw [hr] at h
    rw [require_column_of_none h, require_column_of_none hr]
  | some r =>
    rw [hr] at h
    rw [require_column_of_some h, require_column_of_some hr, hf]

end Columns

/-- What is settled of a request does not depend on generations. -/
theorem plan_renumbered (c : Call) (faulty : Bool) (found : Option Registration) (now : Float) :
    c.plan faulty (found.map (renumbered ρ)) now = c.plan faulty found now := by
  cases c <;> cases found <;> rfl

end Registration

end Peering
