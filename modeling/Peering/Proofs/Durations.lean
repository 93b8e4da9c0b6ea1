import Peering.Proofs.Runs

/-!
# Which texts are durations

A duration is written as a decimal number and a unit, with white space around both. This file says
what such a text is made of, and shows that exactly these texts are read, each as the number times
the seconds of its unit. The parts of a text are determined by it. Only where no unit is written,
the white space in front of it and behind it is one run.
-/

namespace Peering.Duration

/-- The letters of a unit. -/
def TimeUnit.letters : TimeUnit → List Char
  | milliseconds => ['m', 's']
  | seconds => ['s']
  | minutes => ['m']
  | hours => ['h']

/-- The parts of a text that is a duration. -/
structure Spelling where
  /-- The white space in front of the number. -/
  before : List Char
  /-- There is a minus sign. -/
  minus : Bool
  /-- The digits before the point. -/
  whole : List Char
  /-- The digits after the point, if there is one. -/
  places : Option (List Char)
  /-- The white space between the number and the unit. -/
  gap : List Char
  /-- The unit, if it is written. -/
  unit : Option TimeUnit
  /-- The white space behind the unit. -/
  after : List Char

namespace Spelling

/-- The minus sign, if there is one. -/
def sign (p : Spelling) : List Char := if p.minus then ['-'] else []

/-- The point and the digits after it, if there is one. -/
def point (p : Spelling) : List Char := p.places.elim [] ('.' :: ·)

/-- The letters of the unit, if it is written. -/
def letters (p : Spelling) : List Char := p.unit.elim [] TimeUnit.letters

/-- What follows the number. -/
def ending (p : Spelling) : List Char := p.gap ++ (p.letters ++ p.after)

/-- The text of which these are the parts. -/
def text (p : Spelling) : List Char :=
  p.before ++ (p.sign ++ (p.whole ++ (p.point ++ p.ending)))

/-- The parts are of the right kind: there are digits on each side of a point, and blank characters
where white space may stand. -/
structure IsWellFormed (p : Spelling) : Prop where
  before_blank : ∀ c ∈ p.before, isBlank c = true
  whole_ne_nil : p.whole ≠ []
  whole_digits : ∀ c ∈ p.whole, isDigit c = true
  places_ne_nil : ∀ ds ∈ p.places, ds ≠ []
  places_digits : ∀ ds ∈ p.places, ∀ c ∈ ds, isDigit c = true
  gap_blank : ∀ c ∈ p.gap, isBlank c = true
  after_blank : ∀ c ∈ p.after, isBlank c = true

/-- The parts make up a text and are of the right kind. -/
def Spells (p : Spelling) (s : String) : Prop := p.IsWellFormed ∧ p.text = s.toList

/-- The double nearest to the number in front of the unit. -/
def number (p : Spelling) : Float :=
  let places := p.places.getD []
  let x := floatOfDecimal (ofDigitValues 10 (digitValues (p.whole ++ places)))
    (-(places.length : Int))
  if p.minus then -x else x

/-- By how much the number is multiplied. -/
def factor (p : Spelling) : Float :=
  match p.unit with
  | some .milliseconds => 0.001
  | some .seconds | none => 1.0
  | some .minutes => 60.0
  | some .hours => 3600.0

/-- The same parts, with all white space at the end in one run if no unit is written. -/
def joined (p : Spelling) : Spelling :=
  match p.unit with
  | some _ => p
  | none => { p with gap := p.gap ++ p.after, after := [] }

/-- What is read from a text with these parts. -/
private def literal (p : Spelling) : Literal :=
  ⟨p.minus, digitValues p.whole, digitValues (p.places.getD []), p.unit.getD .seconds⟩

variable {p q : Spelling} {rest : List Char}

private theorem IsWellFormed.getD_digits (h : p.IsWellFormed) :
    ∀ c ∈ p.places.getD [], isDigit c = true := by
  cases hplaces : p.places with
  | none => simp
  | some ds => exact h.places_digits ds hplaces

private theorem toSeconds_literal (h : p.IsWellFormed) :
    p.literal.toSeconds = p.number * p.factor := by
  have hvalues : digitValues p.whole ++ digitValues (p.places.getD []) =
      digitValues (p.whole ++ p.places.getD []) := List.filterMap_append.symm
  have hnumber : p.literal.number = p.number := by
    simp only [Literal.number, literal, number, hvalues, length_digitValues h.getD_digits]
  have hfactor : p.literal.unit.inSeconds = p.factor := by
    rcases hunit : p.unit with _ | _ | _ | _ | _ <;>
      simp [literal, factor, hunit, TimeUnit.inSeconds]
  rw [Literal.toSeconds, hnumber, hfactor]

/-! ### Where the parts end -/

private theorem letters_of_unit {u : TimeUnit} (hunit : p.unit = some u) :
    p.letters = u.letters := by rw [letters, hunit, Option.elim_some]

private theorem letters_of_none (hunit : p.unit = none) : p.letters = [] := by
  rw [letters, hunit, Option.elim_none]

/-- The letters of a unit neither are blank nor belong to a number. -/
private theorem stops_letters (u : TimeUnit) (rest : List Char) :
    Stops isBlank (u.letters ++ rest) ∧ Stops isDigit (u.letters ++ rest) ∧
      Stops (· == '.') (u.letters ++ rest) := by
  cases u <;> simp only [TimeUnit.letters, List.cons_append, stops_cons] <;> decide

/-- A unit is recognised, whatever white space follows it. -/
private theorem takeUnit_letters (u : TimeUnit) {rest : List Char}
    (hrest : ∀ c ∈ rest, isBlank c = true) : takeUnit (u.letters ++ rest) = (u, rest) := by
  cases u with
  | minutes =>
    -- the one unit whose letters begin another one's
    cases rest with
    | nil => rfl
    | cons c rest =>
      have hs : c ≠ 's' := by
        rintro rfl
        exact absurd (hrest 's' List.mem_cons_self) (by decide)
      simp [TimeUnit.letters, takeUnit, hs]
  | _ => rfl

private theorem dropWhile_ending_of_unit (h : p.IsWellFormed) {u : TimeUnit}
    (hunit : p.unit = some u) : p.ending.dropWhile isBlank = u.letters ++ p.after := by
  rw [ending, letters_of_unit hunit, dropWhile_run h.gap_blank (stops_letters u _).1]

private theorem dropWhile_ending_of_none (h : p.IsWellFormed) (hunit : p.unit = none) :
    p.ending.dropWhile isBlank = [] := by
  rw [ending, letters_of_none hunit, List.nil_append, List.dropWhile_eq_nil_iff]
  intro c hc
  rcases List.mem_append.mp hc with hgap | hafter
  · exact h.gap_blank c hgap
  · exact h.after_blank c hafter

/-- The number ends where the rest begins. -/
private theorem stops_ending (h : p.IsWellFormed) :
    Stops isDigit p.ending ∧ Stops (· == '.') p.ending := by
  have hpoint {c : Char} (hc : isBlank c = true) : (c == '.') = false := by
    rw [beq_eq_false_iff_ne]
    rintro rfl
    exact absurd hc (by decide)
  cases hunit : p.unit with
  | some u =>
    rw [ending, letters_of_unit hunit]
    obtain ⟨-, hdigit, hdot⟩ := stops_letters u p.after
    exact ⟨stops_append (fun c hc => isDigit_of_isBlank (h.gap_blank c hc)) hdigit,
      stops_append (fun c hc => hpoint (h.gap_blank c hc)) hdot⟩
  | none =>
    have hblank : ∀ c ∈ p.ending.head?, isBlank c = true := fun c hc =>
      List.dropWhile_eq_nil_iff.mp (dropWhile_ending_of_none h hunit) c (List.mem_of_mem_head? hc)
    exact ⟨fun c hc => isDigit_of_isBlank (hblank c hc), fun c hc => hpoint (hblank c hc)⟩

/-- A point is no digit, and nothing but a point goes on with a number. -/
private theorem stops_point (h : p.IsWellFormed) : Stops isDigit (p.point ++ p.ending) := by
  cases hplaces : p.places with
  | none =>
    rw [point, hplaces, Option.elim_none, List.nil_append]
    exact (stops_ending h).1
  | some ds =>
    rw [point, hplaces, Option.elim_some, List.cons_append, stops_cons]
    decide

/-- A number begins with a digit, which is neither blank nor a sign. -/
private theorem IsWellFormed.stops_whole (h : p.IsWellFormed) (rest : List Char) :
    Stops isBlank (p.whole ++ rest) ∧ Stops (· == '-') (p.whole ++ rest) := by
  obtain ⟨c, cs, hwhole⟩ := List.exists_cons_of_ne_nil h.whole_ne_nil
  have hdigit : isDigit c = true := h.whole_digits c (by simp [hwhole])
  rw [hwhole, List.cons_append, stops_cons, stops_cons]
  refine ⟨isBlank_of_isDigit hdigit, ?_⟩
  rw [beq_eq_false_iff_ne]
  rintro rfl
  exact absurd hdigit (by decide)

private theorem takeMinus_sign (p : Spelling) (hrest : Stops (· == '-') rest) :
    takeMinus (p.sign ++ rest) = (p.minus, rest) := by
  cases hminus : p.minus with
  | true => simp [sign, hminus, takeMinus]
  | false =>
    cases rest with
    | nil => simp [sign, hminus, takeMinus]
    | cons c rest =>
      have hc : c ≠ '-' := by simpa using hrest
      simp [sign, hminus, takeMinus, hc]

private theorem IsWellFormed.stops_sign (h : p.IsWellFormed) (rest : List Char) :
    Stops isBlank (p.sign ++ (p.whole ++ rest)) := by
  cases hminus : p.minus with
  | true =>
    simp only [sign, hminus, if_true, List.singleton_append, stops_cons]
    decide
  | false =>
    simp only [sign, hminus, Bool.false_eq_true, if_false, List.nil_append]
    exact (h.stops_whole rest).1

private theorem takePlaces?_point (h : p.IsWellFormed) :
    takePlaces? (p.point ++ p.ending) = some (digitValues (p.places.getD []), p.ending) := by
  obtain ⟨hdigit, hdot⟩ := stops_ending h
  cases hplaces : p.places with
  | none =>
    rw [point, hplaces, Option.elim_none, List.nil_append, Option.getD_none]
    cases hending : p.ending with
    | nil => rfl
    | cons c rest =>
      rw [hending, stops_cons, beq_eq_false_iff_ne] at hdot
      simp [takePlaces?, hdot, digitValues]
  | some ds =>
    have hdigits := h.places_digits ds hplaces
    have hvalues : digitValues ds ≠ [] := by
      rw [← List.length_pos_iff, length_digitValues hdigits, List.length_pos_iff]
      exact h.places_ne_nil ds hplaces
    rw [point, hplaces, Option.elim_some, Option.getD_some, List.cons_append, takePlaces?,
      takeDigits_run hdigits hdigit]
    split
    · rename_i hnil
      exact absurd (Prod.mk.inj hnil).1 hvalues
    · rename_i hsome
      obtain ⟨rfl, rfl⟩ := Prod.mk.inj hsome
      rfl

private theorem exists_takeUnit_ending (h : p.IsWellFormed) :
    ∃ rest, takeUnit (p.ending.dropWhile isBlank) = (p.unit.getD .seconds, rest) ∧
      rest.all isBlank = true := by
  cases hunit : p.unit with
  | some u =>
    rw [dropWhile_ending_of_unit h hunit]
    exact ⟨p.after, takeUnit_letters u h.after_blank, List.all_eq_true.mpr h.after_blank⟩
  | none =>
    rw [dropWhile_ending_of_none h hunit]
    exact ⟨[], rfl, rfl⟩

/-- A text with parts of the right kind is read. -/
private theorem scan?_text (h : p.IsWellFormed) : scan? p.text = some p.literal := by
  obtain ⟨rest, hunit, hrest⟩ := exists_takeUnit_ending h
  have hvalues : (digitValues p.whole).isEmpty = false := by
    rw [List.isEmpty_eq_false_iff, ← List.length_pos_iff, length_digitValues h.whole_digits,
      List.length_pos_iff]
    exact h.whole_ne_nil
  simp only [scan?, text, dropWhile_run h.before_blank (h.stops_sign _),
    takeMinus_sign p (h.stops_whole _).2, takeDigits_run h.whole_digits (stops_point h), hvalues,
    Bool.false_eq_true, if_false, takePlaces?_point h, Option.bind_eq_bind, Option.bind_some, hunit,
    hrest, if_true, literal]

/-! ### What has been read -/

private theorem sign_append_takeMinus (cs : List Char) :
    (if (takeMinus cs).1 then ['-'] else []) ++ (takeMinus cs).2 = cs := by
  unfold takeMinus
  split <;> rfl

private theorem exists_point {cs rest : List Char} {values : List Nat}
    (h : takePlaces? cs = some (values, rest)) :
    ∃ places : Option (List Char), places.elim [] ('.' :: ·) ++ rest = cs ∧
      ∀ ds ∈ places, ds ≠ [] ∧ ∀ c ∈ ds, isDigit c = true := by
  unfold takePlaces? at h
  split at h
  · rename_i behind
    rw [takeDigits_eq] at h
    split at h
    · cases h
    · rename_i hsome
      obtain ⟨rfl, rfl⟩ := Prod.mk.inj (Option.some.inj h)
      obtain ⟨hvalues, hrest⟩ := Prod.mk.inj hsome
      refine ⟨some (behind.takeWhile isDigit), ?_, ?_⟩
      · rw [Option.elim_some, List.cons_append, ← hrest, List.takeWhile_append_dropWhile]
      · rintro _ ⟨⟩
        refine ⟨fun hnil => ?_, fun c hc => List.mem_takeWhile_imp hc⟩
        rw [hnil] at hvalues
        subst hvalues
        simp_all [digitValues]
  · obtain ⟨rfl, rfl⟩ := Prod.mk.inj (Option.some.inj h)
    exact ⟨none, rfl, by simp⟩

private theorem exists_letters (cs : List Char) :
    ∃ unit : Option TimeUnit, unit.elim [] TimeUnit.letters ++ (takeUnit cs).2 = cs := by
  unfold takeUnit
  split
  · exact ⟨some .milliseconds, rfl⟩
  · exact ⟨some .seconds, rfl⟩
  · exact ⟨some .minutes, rfl⟩
  · exact ⟨some .hours, rfl⟩
  · exact ⟨none, rfl⟩

/-- A text that is read has parts of the right kind. -/
private theorem exists_of_scan? {cs : List Char} {l : Literal} (h : scan? cs = some l) :
    ∃ p : Spelling, p.IsWellFormed ∧ p.text = cs := by
  obtain ⟨⟨minus, body⟩, hminus⟩ : ∃ signed, takeMinus (cs.dropWhile isBlank) = signed := ⟨_, rfl⟩
  have hsign := sign_append_takeMinus (cs.dropWhile isBlank)
  rw [hminus] at hsign
  simp only [scan?, hminus, takeDigits_eq] at h
  split_ifs at h with hwhole
  obtain ⟨⟨values, rest⟩, hplaces, h⟩ := Option.bind_eq_some_iff.mp h
  simp only at h
  split_ifs at h with hafter
  obtain ⟨places, hpoint, hdigits⟩ := exists_point hplaces
  obtain ⟨unit, hletters⟩ := exists_letters (rest.dropWhile isBlank)
  refine ⟨{ before := cs.takeWhile isBlank, minus, whole := body.takeWhile isDigit, places,
            gap := rest.takeWhile isBlank, unit,
            after := (takeUnit (rest.dropWhile isBlank)).2 }, ?_, ?_⟩
  · have hne : body.takeWhile isDigit ≠ [] := fun hnil => hwhole (by rw [hnil]; rfl)
    exact {
      before_blank := fun c hc => List.mem_takeWhile_imp hc
      whole_ne_nil := hne
      whole_digits := fun c hc => List.mem_takeWhile_imp hc
      places_ne_nil := fun ds hds => (hdigits ds hds).1
      places_digits := fun ds hds => (hdigits ds hds).2
      gap_blank := fun c hc => List.mem_takeWhile_imp hc
      after_blank := List.all_eq_true.mp hafter }
  · simp only [text, sign, point, ending, letters, hletters, hpoint, hsign,
      List.takeWhile_append_dropWhile]

/-! ### The parts are determined -/

/-- What follows a number is cut in one way only, but for the border between two runs of white
space where no unit is written. -/
private theorem ending_cases (hp : p.IsWellFormed) (hq : q.IsWellFormed)
    (heq : p.ending = q.ending) :
    p.unit = q.unit ∧
      (p.unit = none ∨ p.unit ≠ none ∧ p.gap = q.gap ∧ p.after = q.after) := by
  have hdrop := congrArg (List.dropWhile isBlank) heq
  have hletters (u : TimeUnit) (rest : List Char) : u.letters ++ rest ≠ [] := by
    cases u <;> simp [TimeUnit.letters]
  cases hpunit : p.unit with
  | none =>
    rw [dropWhile_ending_of_none hp hpunit] at hdrop
    cases hqunit : q.unit with
    | none => exact ⟨rfl, .inl rfl⟩
    | some u =>
      rw [dropWhile_ending_of_unit hq hqunit] at hdrop
      exact absurd hdrop.symm (hletters u _)
  | some u =>
    rw [dropWhile_ending_of_unit hp hpunit] at hdrop
    cases hqunit : q.unit with
    | none =>
      rw [dropWhile_ending_of_none hq hqunit] at hdrop
      exact absurd hdrop (hletters u _)
    | some v =>
      rw [dropWhile_ending_of_unit hq hqunit] at hdrop
      have hunit := congrArg takeUnit hdrop
      rw [takeUnit_letters u hp.after_blank, takeUnit_letters v hq.after_blank] at hunit
      obtain ⟨rfl, hafter⟩ := Prod.mk.inj hunit
      rw [ending, ending, letters_of_unit hpunit, letters_of_unit hqunit] at heq
      exact ⟨rfl, .inr ⟨by simp, (eq_of_run_append_eq heq hp.gap_blank hq.gap_blank
        (stops_letters u _).1 (stops_letters u _).1).1, hafter⟩⟩

private theorem places_eq (hp : p.IsWellFormed) (hq : q.IsWellFormed)
    (heq : p.point ++ p.ending = q.point ++ q.ending) :
    p.places = q.places ∧ p.ending = q.ending := by
  have hnone {p q : Spelling} (hp : p.IsWellFormed) (hpnone : p.places = none) {ds : List Char}
      (hqsome : q.places = some ds) : p.point ++ p.ending ≠ q.point ++ q.ending := by
    intro heq
    rw [point, point, hpnone, hqsome, Option.elim_none, Option.elim_some, List.nil_append,
      List.cons_append] at heq
    have hdot := (stops_ending hp).2
    rw [heq, stops_cons] at hdot
    exact absurd hdot (by decide)
  cases hpplaces : p.places with
  | none =>
    cases hqplaces : q.places with
    | none =>
      simp only [point, hpplaces, hqplaces, Option.elim_none, List.nil_append] at heq
      exact ⟨rfl, heq⟩
    | some ds => exact absurd heq (hnone hp hpplaces hqplaces)
  | some ds =>
    cases hqplaces : q.places with
    | none => exact absurd heq.symm (hnone hq hqplaces hpplaces)
    | some ds' =>
      rw [point, point, hpplaces, hqplaces, Option.elim_some, Option.elim_some, List.cons_append,
        List.cons_append] at heq
      obtain ⟨rfl, hending⟩ := eq_of_run_append_eq (List.cons.inj heq).2
        (hp.places_digits _ hpplaces) (hq.places_digits _ hqplaces) (stops_ending hp).1
        (stops_ending hq).1
      exact ⟨rfl, hending⟩

/-- A text has no other parts, but for the border between two runs of white space at the end. -/
private theorem joined_eq (hp : p.IsWellFormed) (hq : q.IsWellFormed) (heq : p.text = q.text) :
    p.joined = q.joined := by
  obtain ⟨hbefore, heq⟩ := eq_of_run_append_eq heq hp.before_blank hq.before_blank
    (hp.stops_sign _) (hq.stops_sign _)
  have hnumber := congrArg takeMinus heq
  rw [takeMinus_sign p (hp.stops_whole _).2, takeMinus_sign q (hq.stops_whole _).2] at hnumber
  obtain ⟨hminus, heq⟩ := Prod.mk.inj hnumber
  obtain ⟨hwhole, heq⟩ := eq_of_run_append_eq heq hp.whole_digits hq.whole_digits (stops_point hp)
    (stops_point hq)
  obtain ⟨hplaces, heq⟩ := places_eq hp hq heq
  obtain ⟨hunit, hends⟩ := ending_cases hp hq heq
  obtain ⟨before, minus, whole, places, gap, unit, after⟩ := p
  obtain ⟨before', minus', whole', places', gap', unit', after'⟩ := q
  simp only at hbefore hminus hwhole hplaces hunit hends
  subst hbefore hminus hwhole hplaces hunit
  rcases hends with rfl | ⟨-, rfl, rfl⟩
  · simp only [joined, mk.injEq, and_true, true_and]
    simpa [ending, letters] using heq
  · rfl

end Spelling

open Spelling

private theorem ofValue_text (s : String) : ofValue (.text s) =
    match scan? s.toList with
    | some l => .ok l.toSeconds
    | none => .error (.invalid (.text s)) := rfl

/-- A text is a duration if and only if it has the parts of one: white space, a minus sign or none,
digits, a point and digits or none, white space, a unit or none, and white space. It is read as the
number times the seconds of the unit, its parts are the only ones that it has, and every other text
is refused. -/
theorem reads_exactly (s : String) :
    ((∃ x, ofValue (.text s) = .ok x) ↔ ∃ p : Spelling, p.Spells s) ∧
      (∀ p : Spelling, p.Spells s → ofValue (.text s) = .ok (p.number * p.factor) ∧
        ∀ q : Spelling, q.Spells s → q.joined = p.joined) ∧
      ((¬∃ p : Spelling, p.Spells s) → ofValue (.text s) = .error (.invalid (.text s))) := by
  have hread {p : Spelling} (hp : p.Spells s) :
      ofValue (.text s) = .ok (p.number * p.factor) := by
    rw [ofValue_text, ← hp.2, scan?_text hp.1, ← toSeconds_literal hp.1]
  have hrefused (hnone : ¬∃ p : Spelling, p.Spells s) :
      ofValue (.text s) = .error (.invalid (.text s)) := by
    cases hscan : scan? s.toList with
    | some l => exact absurd (exists_of_scan? hscan) hnone
    | none => rw [ofValue_text, hscan]
  refine ⟨⟨fun ⟨x, hx⟩ => ?_, fun ⟨p, hp⟩ => ⟨_, hread hp⟩⟩, fun p hp => ⟨hread hp, ?_⟩, hrefused⟩
  · by_contra hnone
    rw [hrefused hnone] at hx
    cases hx
  · exact fun q hq => joined_eq hq.1 hp.1 (hq.2.trans hp.2.symm)

/-- The parts of half a minute before now. -/
def halfMinute : Spelling where
  before := [' ']
  minus := true
  whole := ['0']
  places := some ['5']
  gap := []
  unit := some .minutes
  after := ['\t', '\n']

private theorem isWellFormed_halfMinute : halfMinute.IsWellFormed where
  before_blank := List.all_eq_true.mp (by decide)
  whole_ne_nil := List.cons_ne_nil _ _
  whole_digits := List.all_eq_true.mp (by decide)
  places_ne_nil := by simp [halfMinute]
  places_digits ds hds := by
    obtain rfl := Option.mem_some_iff.mp hds
    exact List.all_eq_true.mp (by decide)
  gap_blank := List.all_eq_true.mp rfl
  after_blank := List.all_eq_true.mp (by decide)

/-- They make up a text, which is read as minus a half times sixty. -/
theorem reads_exactly_halfMinute : halfMinute.Spells " -0.5m\t\n" ∧
    ofValue (.text " -0.5m\t\n") = .ok (halfMinute.number * halfMinute.factor) ∧
    ∀ q : Spelling, q.Spells " -0.5m\t\n" → q.joined = halfMinute := by
  have hspells : halfMinute.Spells " -0.5m\t\n" := ⟨isWellFormed_halfMinute, rfl⟩
  exact ⟨hspells, (reads_exactly _).2.1 halfMinute hspells⟩

end Peering.Duration
