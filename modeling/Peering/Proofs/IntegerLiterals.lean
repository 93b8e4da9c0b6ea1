import Peering.Proofs.Runs
import Mathlib.Data.List.Basic

/-!
# Which texts are integers

A decimal literal stands between white space: one sign or none, and digits of any script, between
which single underscores may stand. This file shows that exactly the literals that are not too long
are read as integers, and that the text written for an integer is read as that integer, if it is not
too long either. Two integers are never written alike, however long they are.
-/

namespace Peering

/-- A text of digits, at least one, with single underscores between some of them. -/
inductive IsDigitRun : List Char → Prop where
  | single {c : Char} (hc : isDigit c = true) : IsDigitRun [c]
  | digit {c : Char} {cs : List Char} (hc : isDigit c = true) (h : IsDigitRun cs) :
    IsDigitRun (c :: cs)
  | underscore {c : Char} {cs : List Char} (hc : isDigit c = true) (h : IsDigitRun cs) :
    IsDigitRun (c :: '_' :: cs)

namespace IsDigitRun

variable {cs : List Char}

/-- Digits without underscores are a run of digits. -/
theorem of_digits (hne : cs ≠ []) (h : ∀ c ∈ cs, isDigit c = true) : IsDigitRun cs := by
  induction cs with
  | nil => exact absurd rfl hne
  | cons c cs ih =>
    have hc := h c List.mem_cons_self
    cases cs with
    | nil => exact .single hc
    | cons c' cs => exact .digit hc (ih (by simp) fun a ha => h a (List.mem_cons_of_mem _ ha))

/-- A run begins with a digit. -/
theorem exists_first (h : IsDigitRun cs) : ∃ c rest, cs = c :: rest ∧ isDigit c = true := by
  cases h with
  | single hc | digit hc _ | underscore hc _ => exact ⟨_, _, rfl, hc⟩

/-- A run ends with a digit. -/
theorem exists_last (h : IsDigitRun cs) : ∃ front c, cs = front ++ [c] ∧ isDigit c = true := by
  induction h with
  | single hc => exact ⟨[], _, rfl, hc⟩
  | @digit a _ _ _ ih =>
    obtain ⟨front, c, rfl, hc⟩ := ih
    exact ⟨a :: front, c, rfl, hc⟩
  | @underscore a _ _ _ ih =>
    obtain ⟨front, c, rfl, hc⟩ := ih
    exact ⟨a :: '_' :: front, c, rfl, hc⟩

end IsDigitRun

/-- The parts of a text that is a decimal literal. -/
structure IntegerSpelling where
  /-- The white space in front of it. -/
  before : List Char
  /-- The sign, if there is one. -/
  sign : Option Char
  /-- The digits and the underscores between them. -/
  digits : List Char
  /-- The white space behind it. -/
  after : List Char

namespace IntegerSpelling

/-- The literal without the white space around it. -/
def body (p : IntegerSpelling) : List Char := p.sign.toList ++ p.digits

/-- The text of which these are the parts. -/
def text (p : IntegerSpelling) : List Char := p.before ++ (p.body ++ p.after)

/-- The parts are of the right kind, and there are not too many digits. -/
structure IsWellFormed (p : IntegerSpelling) : Prop where
  before_white : ∀ c ∈ p.before, isWhiteSpace c = true
  sign_known : ∀ c ∈ p.sign, c = '+' ∨ c = '-'
  digits_run : IsDigitRun p.digits
  digits_few : (digitValues p.digits).length ≤ maxLiteralDigits
  after_white : ∀ c ∈ p.after, isWhiteSpace c = true

/-- The integer that the literal stands for. -/
def value (p : IntegerSpelling) : Int :=
  if p.sign = some '-' then -(ofDigitValues 10 (digitValues p.digits) : Int)
  else ofDigitValues 10 (digitValues p.digits)

end IntegerSpelling

/-- A text stands for an integer. -/
def IsIntegerLiteral (cs : List Char) (n : Int) : Prop :=
  ∃ p : IntegerSpelling, p.IsWellFormed ∧ p.text = cs ∧ p.value = n

section Trimming

variable {p : Char → Bool} {before cs after : List Char}

/-- What is stripped at both ends leaves what stands between. -/
theorem trimBoth_append (hbefore : ∀ c ∈ before, p c = true) (hafter : ∀ c ∈ after, p c = true)
    (hfirst : Stops p (cs ++ after)) (hlast : Stops p cs.reverse) :
    trimBoth p (before ++ (cs ++ after)) = cs := by
  have hreverse : ∀ c ∈ after.reverse, p c = true := fun c hc => hafter c (List.mem_reverse.mp hc)
  rw [trimBoth, dropWhile_run hbefore hfirst, List.reverse_append, dropWhile_run hreverse hlast,
    List.reverse_reverse]

/-- Only elements of the class are taken off. -/
theorem exists_trimBoth (p : Char → Bool) (cs : List Char) :
    ∃ before after, before ++ (trimBoth p cs ++ after) = cs ∧
      (∀ c ∈ before, p c = true) ∧ ∀ c ∈ after, p c = true := by
  refine ⟨cs.takeWhile p, ((cs.dropWhile p).reverse.takeWhile p).reverse, ?_,
    fun c hc => List.mem_takeWhile_imp hc,
    fun c hc => List.mem_takeWhile_imp (List.mem_reverse.mp hc)⟩
  rw [trimBoth, ← List.reverse_append, List.takeWhile_append_dropWhile, List.reverse_reverse,
    List.takeWhile_append_dropWhile]

end Trimming

section Digits

variable {c : Char} {cs : List Char} {ds : List Nat}

/-- What has a value as a digit is one. -/
theorem isDigit_of_digitValue? {d : Nat} (h : digitValue? c = some d) : isDigit c = true := by
  rw [isDigit, h, Option.isSome_some]

/-- White space is no digit. -/
theorem isWhiteSpace_of_isDigit (h : isDigit c = true) : isWhiteSpace c = false := by
  rw [← Bool.not_eq_true]
  intro hwhite
  rw [isDigit_of_isBlank (isBlank_of_isWhiteSpace hwhite)] at h
  cases h

private theorem letter_range (h : c.isAlpha = true) :
    65 ≤ c.toNat ∧ c.toNat ≤ 90 ∨ 97 ≤ c.toNat ∧ c.toNat ≤ 122 := by
  obtain hupper | hlower := (Bool.or_eq_true _ _).mp h
  · exact .inl (of_decide_eq_true hupper)
  · obtain ⟨hlow, hhigh⟩ := (Bool.and_eq_true _ _).mp hlower
    exact .inr ⟨of_decide_eq_true hlow, of_decide_eq_true hhigh⟩

/-- To the base ten, letters are no digits. -/
theorem digitIn?_ten (c : Char) : digitIn? 10 c = digitValue? c := by
  unfold digitIn?
  split
  · rename_i halpha
    have hnone : digitValue? c = none := by
      have hletter := letter_range halpha
      have hascii : ¬('0' ≤ c ∧ c ≤ '9') := by
        rintro ⟨-, hle⟩
        have hle' : c.toNat ≤ 57 := hle
        omega
      rw [digitValue?, if_pos (by omega), if_neg hascii]
    rw [hnone]
    simp
  · cases hvalue : digitValue? c with
    | none => rfl
    | some d => simp [digitValue?_lt hvalue]

/-- No letter marks the base ten. -/
private theorem dropMark_ten (cs : List Char) : dropMark 10 cs = cs := by
  unfold dropMark
  split
  · simp [baseMark?]
  · rfl

/-- What is read as digits is a run of digits, and so is what is read behind one. -/
private theorem isDigitRun_of_digitRun? (cs : List Char) :
    (∀ ds, digitRun? 10 false cs = some (ds, []) → IsDigitRun cs ∧ ds = digitValues cs) ∧
      ∀ ds c, isDigit c = true → digitRun? 10 true cs = some (ds, []) →
        IsDigitRun (c :: cs) ∧ ds = digitValues cs := by
  induction cs with
  | nil =>
    refine ⟨fun ds h => ?_, fun ds c hc h => ?_⟩
    · simp [digitRun?] at h
    · obtain rfl : ds = [] := by simpa [digitRun?] using h.symm
      exact ⟨.single hc, rfl⟩
  | cons a rest ih =>
    cases ha : digitValue? a with
    | some d =>
      have hstep {flag : Bool} {ds : List Nat} (h : digitRun? 10 flag (a :: rest) = some (ds, [])) :
          IsDigitRun (a :: rest) ∧ ds = digitValues (a :: rest) := by
        simp only [digitRun?, digitIn?_ten, ha] at h
        obtain ⟨⟨ds', rest'⟩, hrest, heq⟩ := Option.map_eq_some_iff.mp h
        obtain ⟨rfl, rfl⟩ := Prod.mk.inj heq
        obtain ⟨hrun, rfl⟩ := ih.2 ds' a (isDigit_of_digitValue? ha) hrest
        exact ⟨hrun, (List.filterMap_cons_some ha).symm⟩
      exact ⟨fun ds h => hstep h, fun ds c hc h => ⟨.digit hc (hstep h).1, (hstep h).2⟩⟩
    | none =>
      refine ⟨fun ds h => ?_, fun ds c hc h => ?_⟩
      · simp [digitRun?, digitIn?_ten, ha] at h
      · simp only [digitRun?, digitIn?_ten, ha, Bool.not_true, Bool.false_eq_true, if_false] at h
        split_ifs at h with hunderscore
        · obtain ⟨hrun, rfl⟩ := ih.1 ds h
          subst hunderscore
          exact ⟨.underscore hc hrun, (List.filterMap_cons_none ha).symm⟩
        · simp at h

/-- A run of digits is read to its end. -/
private theorem digitRun?_of_isDigitRun (h : IsDigitRun cs) (flag : Bool) :
    digitRun? 10 flag cs = some (digitValues cs, []) := by
  induction h generalizing flag with
  | @single c hc =>
    obtain ⟨d, hd⟩ := Option.isSome_iff_exists.mp hc
    simp [digitRun?, digitIn?_ten, hd, digitValues]
  | @digit c cs hc _ ih =>
    obtain ⟨d, hd⟩ := Option.isSome_iff_exists.mp hc
    simp [digitRun?, digitIn?_ten, hd, digitValues, ih]
  | @underscore c cs hc _ ih =>
    obtain ⟨d, hd⟩ := Option.isSome_iff_exists.mp hc
    have hunderscore : digitValue? '_' = none := by decide
    simp [digitRun?, digitIn?_ten, hd, digitValues, ih, hunderscore]

end Digits

section Reading

variable {cs : List Char} {n : Int}

/-- What a literal without white space around it stands for. -/
private theorem integerIn_ten {negative : Bool} {body : List Char}
    (hsign : splitSign (trimBoth isWhiteSpace cs) = (negative, body)) :
    readInteger? cs = some n ↔ ∃ ds, digitRun? 10 false body = some (ds, []) ∧
      ds.length ≤ maxLiteralDigits ∧
      n = if negative then -(ofDigitValues 10 ds : Int) else ofDigitValues 10 ds := by
  simp only [readInteger?, integerIn, hsign, dropMark_ten]
  cases hrun : digitRun? 10 false body with
  | none => simp [Except.toOption]
  | some run =>
    obtain ⟨ds, rest⟩ := run
    simp only [true_and, Option.some.injEq, Prod.mk.injEq]
    by_cases hlong : maxLiteralDigits < ds.length
    · simp only [if_pos hlong, Except.toOption, reduceCtorEq, false_iff]
      rintro ⟨_, ⟨rfl, -⟩, hfew, -⟩
      omega
    · cases rest with
      | cons c rest => simp [hlong, Except.toOption]
      | nil =>
        simp only [if_neg hlong, List.isEmpty_nil, if_true, Except.toOption, Option.some.injEq]
        constructor
        · rintro rfl
          exact ⟨ds, ⟨rfl, trivial⟩, by omega, rfl⟩
        · rintro ⟨_, ⟨rfl, -⟩, -, rfl⟩
          rfl

private theorem IntegerSpelling.IsWellFormed.splitSign_body {p : IntegerSpelling}
    (h : p.IsWellFormed) : splitSign p.body = (decide (p.sign = some '-'), p.digits) := by
  obtain ⟨c, rest, hdigits, hc⟩ := h.digits_run.exists_first
  cases hsign : p.sign with
  | some a =>
    rcases h.sign_known a hsign with rfl | rfl <;>
      simp [IntegerSpelling.body, hsign, splitSign]
  | none =>
    have hminus : c ≠ '-' := by
      rintro rfl
      exact absurd hc (by decide)
    have hplus : c ≠ '+' := by
      rintro rfl
      exact absurd hc (by decide)
    simp [IntegerSpelling.body, hsign, hdigits, splitSign, hminus, hplus]

private theorem IntegerSpelling.IsWellFormed.trimBoth_text {p : IntegerSpelling}
    (h : p.IsWellFormed) : trimBoth isWhiteSpace p.text = p.body := by
  refine trimBoth_append h.before_white h.after_white ?_ ?_
  · cases hsign : p.sign with
    | some a =>
      rw [IntegerSpelling.body, hsign, Option.toList_some, List.singleton_append, List.cons_append,
        stops_cons]
      rcases h.sign_known a hsign with rfl | rfl <;> decide
    | none =>
      obtain ⟨c, rest, hdigits, hc⟩ := h.digits_run.exists_first
      rw [IntegerSpelling.body, hsign, Option.toList_none, List.nil_append, hdigits,
        List.cons_append, stops_cons]
      exact isWhiteSpace_of_isDigit hc
  · obtain ⟨front, c, hdigits, hc⟩ := h.digits_run.exists_last
    rw [IntegerSpelling.body, hdigits, List.reverse_append, List.reverse_concat, List.cons_append,
      stops_cons]
    exact isWhiteSpace_of_isDigit hc

private theorem exists_splitSign (cs : List Char) :
    ∃ sign : Option Char, sign.toList ++ (splitSign cs).2 = cs ∧
      (∀ c ∈ sign, c = '+' ∨ c = '-') ∧ ((splitSign cs).1 = true ↔ sign = some '-') := by
  unfold splitSign
  split
  · exact ⟨some '-', rfl, by simp, by simp⟩
  · exact ⟨some '+', rfl, by simp, by simp⟩
  · exact ⟨none, rfl, by simp, by simp⟩

/-- Exactly the decimal literals are read, each as the integer that it stands for. -/
theorem readInteger?_eq_some_iff : readInteger? cs = some n ↔ IsIntegerLiteral cs n := by
  constructor
  · intro h
    obtain ⟨before, after, htext, hbefore, hafter⟩ := exists_trimBoth isWhiteSpace cs
    obtain ⟨sign, hbody, hknown, hminus⟩ := exists_splitSign (trimBoth isWhiteSpace cs)
    obtain ⟨⟨negative, body⟩, hsign⟩ :
        ∃ signed, splitSign (trimBoth isWhiteSpace cs) = signed := ⟨_, rfl⟩
    rw [hsign] at hbody hminus
    obtain ⟨ds, hrun, hfew, rfl⟩ := (integerIn_ten hsign).mp h
    obtain ⟨hdigits, rfl⟩ := (isDigitRun_of_digitRun? body).1 ds hrun
    refine ⟨⟨before, sign, body, after⟩, ⟨hbefore, hknown, hdigits, hfew, hafter⟩, ?_, ?_⟩
    · rw [IntegerSpelling.text, IntegerSpelling.body, hbody, htext]
    · simp only [IntegerSpelling.value, ← hminus]
  · rintro ⟨p, hp, rfl, rfl⟩
    refine (integerIn_ten ((congrArg splitSign hp.trimBoth_text).trans hp.splitSign_body)).mpr
      ⟨_, digitRun?_of_isDigitRun hp.digits_run false, hp.digits_few, ?_⟩
    simp only [IntegerSpelling.value, decide_eq_true_eq]

end Reading

section Writing

variable {n k : Int}

/-- The digits that are written are digits, and their value is the number. -/
private theorem natural_digits (k : Nat) :
    (∀ c ∈ naturalText k, isDigit c = true) ∧ ofDigitValues 10 (digitValues (naturalText k)) = k ∧
      (digitValues (naturalText k)).length = (naturalText k).length := by
  have hvalue : ∀ c ∈ naturalText k, digitValue? c = some (c.toNat - '0'.toNat) := by
    intro c hc
    have hdigit := Nat.isDigit_of_mem_toDigits (by decide) (by decide) hc
    simp only [Char.isDigit, Bool.and_eq_true, decide_eq_true_eq, ge_iff_le,
      UInt32.le_iff_toNat_le] at hdigit
    have hrange : 48 ≤ c.toNat ∧ c.toNat ≤ 57 := hdigit
    have hascii : '0' ≤ c ∧ c ≤ '9' := hdigit
    rw [digitValue?, if_pos (by omega), if_pos hascii]
    rfl
  have hdigits : ∀ c ∈ naturalText k, isDigit c = true :=
    fun c hc => isDigit_of_digitValue? (hvalue c hc)
  have hvalues : digitValues (naturalText k) =
      (naturalText k).map fun c => c.toNat - '0'.toNat :=
    List.filterMap_eq_map_iff_forall_eq_some.mpr hvalue
  refine ⟨hdigits, ?_, length_digitValues hdigits⟩
  rw [hvalues, ofDigitValues, List.foldl_map]
  calc (naturalText k).foldl (fun n c => n * 10 + (c.toNat - '0'.toNat)) 0
      = Nat.ofDigitChars 10 (naturalText k) 0 := by
        simp only [Nat.ofDigitChars_eq_foldl, Nat.mul_comm]
    _ = k := Nat.ofDigitChars_ten_toDigits

private theorem length_naturalText_le {m digits : Nat} (hdigits : 0 < digits)
    (hm : m < Nat.pow 10 digits) : (naturalText m).length ≤ digits :=
  (Nat.length_toDigits_le_iff (by decide) hdigits).mpr hm

/-- How an integer is written. -/
private def writtenSpelling (n : Int) : IntegerSpelling where
  before := []
  sign := if n < 0 then some '-' else none
  digits := naturalText n.natAbs
  after := []

private theorem text_writtenSpelling (n : Int) : (writtenSpelling n).text = integerText n := by
  by_cases hn : n < 0 <;>
    simp [IntegerSpelling.text, IntegerSpelling.body, writtenSpelling, integerText, hn]

private theorem value_writtenSpelling (n : Int) : (writtenSpelling n).value = n := by
  have hvalue := (natural_digits n.natAbs).2.1
  by_cases hn : n < 0
  · simp only [IntegerSpelling.value, writtenSpelling, hn, if_true, hvalue]
    omega
  · simp only [IntegerSpelling.value, writtenSpelling, hn, if_false, reduceCtorEq, hvalue]
    omega

/-- The text of an integer is a literal for it, unless it is too long. -/
theorem isIntegerLiteral_integerText (hn : isWritable n = true) :
    IsIntegerLiteral (integerText n) n := by
  obtain ⟨hdigits, -, hlength⟩ := natural_digits n.natAbs
  unfold isWritable tooLongToWrite at hn
  have hfew : (naturalText n.natAbs).length ≤ maxLiteralDigits :=
    length_naturalText_le (by decide) (of_decide_eq_true hn)
  refine ⟨writtenSpelling n, ⟨by simp [writtenSpelling], ?_, .of_digits Nat.toDigits_ne_nil hdigits,
    hlength.trans_le hfew, by simp [writtenSpelling]⟩, text_writtenSpelling n,
    value_writtenSpelling n⟩
  intro c hc
  simp only [writtenSpelling] at hc
  split_ifs at hc
  · exact .inr (Option.some.inj hc).symm
  · cases hc

/-- An integer is written with digits and a minus sign. -/
theorem mem_integerText {c : Char} (h : c ∈ integerText n) : c = '-' ∨ isDigit c = true := by
  have hdigits := (natural_digits n.natAbs).1
  unfold integerText at h
  split_ifs at h
  · rcases List.mem_cons.mp h with rfl | hc
    · exact .inl rfl
    · exact .inr (hdigits c hc)
  · exact .inr (hdigits c h)

/-- A sign is written in front of the negative integers, and of no others. -/
private theorem minus_mem_integerText_iff : '-' ∈ integerText n ↔ n < 0 := by
  have hnone : '-' ∉ naturalText n.natAbs := fun h =>
    absurd ((natural_digits n.natAbs).1 _ h) (by decide)
  by_cases hn : n < 0 <;> simp [integerText, hn, hnone]

/-- Different integers are written differently, also those that are too long to be read. -/
theorem integerText_injective (h : integerText n = integerText k) : n = k := by
  have hvalues (n : Int) : ofDigitValues 10 (digitValues (integerText n)) = n.natAbs := by
    have hminus : digitValue? '-' = none := by decide
    by_cases hn : n < 0 <;>
      simp only [integerText, hn, if_true, if_false, digitValues,
        List.filterMap_cons_none hminus] <;>
      exact (natural_digits n.natAbs).2.1
  have habs : n.natAbs = k.natAbs := by rw [← hvalues n, ← hvalues k, h]
  have hsign : n < 0 ↔ k < 0 := by
    rw [← minus_mem_integerText_iff, ← minus_mem_integerText_iff, h]
  omega

end Writing

end Peering
