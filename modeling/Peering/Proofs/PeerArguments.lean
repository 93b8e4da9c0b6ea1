import Peering.PeerArgument
import Peering.Proofs.IntegerLiterals

/-!
# Which arguments describe peers

An argument is split at its last two colons, so that the address may hold colons itself. This file
shows that an argument written for an address and two AS numbers describes the peer with these, and
that exactly those arguments are accepted that have two integers behind their last two colons. What
stands in front of them is the address, as it is.
-/

namespace Peering.PeerArgument

/-- The peer with an address and two AS numbers, and the usual values otherwise. -/
def peerWith (address : String) (localAsn remoteAsn : Int) : Peer where
  address := .text address
  localAsn := .int localAsn
  remoteAsn := .int remoteAsn

/-- A text consists of an address and two integers, with a colon in front of each integer. -/
def Describes (s address : String) (localAsn remoteAsn : Int) : Prop :=
  ∃ first second, s.toList = address.toList ++ ':' :: (first ++ ':' :: second) ∧
    ':' ∉ first ∧ ':' ∉ second ∧
    IsIntegerLiteral first localAsn ∧ IsIntegerLiteral second remoteAsn

section Splitting

variable {cs before middle after : List Char}

/-- There is no last colon exactly if there is no colon. -/
theorem splitLast?_eq_none_iff : splitLast? cs = none ↔ ':' ∉ cs := by
  induction cs with
  | nil => simp [splitLast?]
  | cons c rest ih =>
    cases hrest : splitLast? rest with
    | some parts =>
      have hmem : ':' ∈ rest := by
        by_contra hmem
        rw [ih.mpr hmem] at hrest
        cases hrest
      simp [splitLast?, hrest, hmem]
    | none =>
      by_cases hc : c = ':'
      · simp [splitLast?, hrest, hc]
      · simp [splitLast?, hrest, hc, ih.mp hrest, Ne.symm hc]

/-- A text is cut at its last colon. -/
theorem splitLast?_eq_some_iff :
    splitLast? cs = some (before, after) ↔ cs = before ++ ':' :: after ∧ ':' ∉ after := by
  induction cs generalizing before with
  | nil => simp [splitLast?]
  | cons c rest ih =>
    cases before with
    | nil =>
      cases hrest : splitLast? rest with
      | some parts =>
        have hmem : ':' ∈ rest := by
          by_contra hmem
          rw [splitLast?_eq_none_iff.mpr hmem] at hrest
          cases hrest
        simp only [splitLast?, hrest, Option.some.injEq, Prod.mk.injEq, reduceCtorEq, false_and,
          List.nil_append, List.cons.injEq, false_iff, not_and, and_imp]
        rintro - rfl hnone
        exact hnone hmem
      | none =>
        have hnone := splitLast?_eq_none_iff.mp hrest
        simp only [splitLast?, hrest, Option.ite_none_right_eq_some, Option.some.injEq,
          Prod.mk.injEq, true_and, List.nil_append, List.cons.injEq]
        constructor
        · rintro ⟨rfl, rfl⟩
          exact ⟨⟨rfl, rfl⟩, hnone⟩
        · rintro ⟨⟨rfl, rfl⟩, -⟩
          exact ⟨rfl, rfl⟩
    | cons b front =>
      rw [List.cons_append, List.cons.injEq, and_assoc, ← ih]
      cases hrest : splitLast? rest with
      | some parts =>
        obtain ⟨front', after'⟩ := parts
        simp [splitLast?, hrest, and_assoc]
      | none => simp [splitLast?, hrest]

/-- A text is split at its last two colons. -/
theorem split?_eq_some_iff : split? cs = some (before, middle, after) ↔
    cs = before ++ ':' :: (middle ++ ':' :: after) ∧ ':' ∉ middle ∧ ':' ∉ after := by
  simp only [split?, Option.bind_eq_bind, Option.bind_eq_some_iff, Prod.exists, Option.some.injEq,
    Prod.mk.injEq, Option.pure_def]
  constructor
  · rintro ⟨front, last, hlast, address, second, hsecond, rfl, rfl, rfl⟩
    obtain ⟨rfl, hafter⟩ := splitLast?_eq_some_iff.mp hlast
    obtain ⟨rfl, hmiddle⟩ := splitLast?_eq_some_iff.mp hsecond
    exact ⟨by simp, hmiddle, hafter⟩
  · rintro ⟨rfl, hmiddle, hafter⟩
    refine ⟨before ++ ':' :: middle, after, splitLast?_eq_some_iff.mpr ⟨by simp, hafter⟩,
      before, middle, splitLast?_eq_some_iff.mpr ⟨rfl, hmiddle⟩, rfl, rfl, rfl⟩

/-- A text with fewer than two colons cannot be split, and no other. -/
theorem split?_eq_none_iff : split? cs = none ↔ cs.count ':' < 2 := by
  cases hsplit : split? cs with
  | some parts =>
    obtain ⟨before, middle, after⟩ := parts
    obtain ⟨rfl, -, -⟩ := split?_eq_some_iff.mp hsplit
    simp only [reduceCtorEq, List.count_append, List.count_cons_self, false_iff]
    omega
  | none =>
    simp only [true_iff]
    cases hlast : splitLast? cs with
    | none =>
      rw [List.count_eq_zero.mpr (splitLast?_eq_none_iff.mp hlast)]
      omega
    | some parts =>
      obtain ⟨front, last⟩ := parts
      have hfront : splitLast? front = none := by
        cases h : splitLast? front with
        | none => rfl
        | some _ => simp [split?, hlast, h] at hsplit
      obtain ⟨rfl, hafter⟩ := splitLast?_eq_some_iff.mp hlast
      rw [List.count_append, List.count_cons_self, List.count_eq_zero.mpr hafter,
        List.count_eq_zero.mpr (splitLast?_eq_none_iff.mp hfront)]
      omega

end Splitting

section Parsing

variable {s : String} {p : Peer}

/-- A text that describes a peer is accepted. -/
private theorem parse_of_describes {address : String} {a b : Int} (h : Describes s address a b) :
    parse s = .ok (peerWith address a b) := by
  obtain ⟨first, second, hs, hfirst, hsecond, ha, hb⟩ := h
  simp only [parse, split?_eq_some_iff.mpr ⟨hs, hfirst, hsecond⟩, readInteger?_eq_some_iff.mpr ha,
    readInteger?_eq_some_iff.mpr hb, String.ofList_toList, peerWith]

private theorem describes_of_split? {address first second : List Char} {a b : Int}
    (hsplit : split? s.toList = some (address, first, second)) (ha : readInteger? first = some a)
    (hb : readInteger? second = some b) : Describes s (String.ofList address) a b := by
  obtain ⟨hs, hfirst, hsecond⟩ := split?_eq_some_iff.mp hsplit
  exact ⟨first, second, by simpa using hs, hfirst, hsecond, readInteger?_eq_some_iff.mp ha,
    readInteger?_eq_some_iff.mp hb⟩

private theorem parse_eq_ok_iff :
    parse s = .ok p ↔ ∃ address a b, Describes s address a b ∧ p = peerWith address a b := by
  constructor
  · intro h
    cases hsplit : split? s.toList with
    | none => simp [parse, hsplit] at h
    | some parts =>
      obtain ⟨address, first, second⟩ := parts
      cases ha : readInteger? first with
      | none => simp [parse, hsplit, ha] at h
      | some a =>
        cases hb : readInteger? second with
        | none => simp [parse, hsplit, ha, hb] at h
        | some b =>
          have hdescribes := describes_of_split? hsplit ha hb
          rw [parse_of_describes hdescribes] at h
          exact ⟨_, a, b, hdescribes, (Except.ok.inj h).symm⟩
  · rintro ⟨address, a, b, h, rfl⟩
    exact parse_of_describes h

private theorem parse_eq_shape_iff : parse s = .error (.shape s) ↔ s.toList.count ':' < 2 := by
  rw [← split?_eq_none_iff]
  cases hsplit : split? s.toList with
  | none => simp [parse, hsplit]
  | some parts =>
    obtain ⟨address, first, second⟩ := parts
    cases ha : readInteger? first <;> cases hb : readInteger? second <;>
      simp [parse, hsplit, ha, hb]

private theorem parse_eq_numbers_iff : parse s = .error (.numbers s) ↔
    2 ≤ s.toList.count ':' ∧ ¬∃ address a b, Describes s address a b := by
  constructor
  · intro h
    refine ⟨Nat.le_of_not_lt fun hcount => ?_, ?_⟩
    · rw [parse_eq_shape_iff.mpr hcount] at h
      cases h
    · rintro ⟨address, a, b, hdescribes⟩
      rw [parse_of_describes hdescribes] at h
      cases h
  · rintro ⟨hcount, hnone⟩
    cases hsplit : split? s.toList with
    | none =>
      have := split?_eq_none_iff.mp hsplit
      omega
    | some parts =>
      obtain ⟨address, first, second⟩ := parts
      cases ha : readInteger? first with
      | none => simp only [parse, hsplit, ha]
      | some a =>
        cases hb : readInteger? second with
        | none => simp only [parse, hsplit, ha, hb]
        | some b => exact absurd ⟨_, a, b, describes_of_split? hsplit ha hb⟩ hnone

end Parsing

/-- What is written for an address and two AS numbers describes the peer with these. A text is
accepted if and only if it consists of an address and two integers, and as the peer that they give;
otherwise it is refused, for its shape if it has fewer than two colons, and else for its numbers. -/
theorem describes_exactly :
    (∀ (address : String) (a b : Int), isWritable a = true → isWritable b = true →
      parse (address ++ ":" ++ intText a ++ ":" ++ intText b) = .ok (peerWith address a b)) ∧
    ∀ s : String,
      (∀ p, parse s = .ok p ↔ ∃ address a b, Describes s address a b ∧ p = peerWith address a b) ∧
      (parse s = .error (.shape s) ↔ s.toList.count ':' < 2) ∧
      (parse s = .error (.numbers s) ↔
        2 ≤ s.toList.count ':' ∧ ¬∃ address a b, Describes s address a b) := by
  refine ⟨fun address a b ha hb => ?_,
    fun s => ⟨fun p => parse_eq_ok_iff, parse_eq_shape_iff, parse_eq_numbers_iff⟩⟩
  have hcolon (n : Int) : ':' ∉ integerText n := fun h => by
    rcases mem_integerText h with h | h <;> exact absurd h (by decide)
  refine parse_of_describes ⟨integerText a, integerText b, ?_, hcolon a, hcolon b,
    isIntegerLiteral_integerText ha, isIntegerLiteral_integerText hb⟩
  simp [intText]

/-- An address with colons and blanks is kept as it is, and so are the numbers that are written
behind it. Numbers may also stand between white space, with a sign and an underscore, or in digits
of another script. -/
theorem describes_exactly_spaced :
    isWritable (-7) = true ∧ isWritable 65002 = true ∧
      parse (" 2001:db8:: " ++ ":" ++ intText (-7) ++ ":" ++ intText 65002) =
        .ok (peerWith " 2001:db8:: " (-7) 65002) ∧
      parse "::1: +1_0\n:٤" = .ok (peerWith "::1" 10 4) := by
  have hnegative : isWritable (-7) = true := by decide +kernel
  have hpositive : isWritable 65002 = true := by decide +kernel
  have hten : IsIntegerLiteral [' ', '+', '1', '_', '0', '\n'] 10 := by
    refine ⟨⟨[' '], some '+', ['1', '_', '0'], ['\n']⟩, ?_, rfl, by decide⟩
    constructor
    case before_white => exact List.all_eq_true.mp (by decide)
    case sign_known => simp
    case digits_run => exact .underscore (by decide) (.single (by decide))
    case digits_few => decide
    case after_white => exact List.all_eq_true.mp (by decide)
  have hfour : IsIntegerLiteral ['٤'] 4 := by
    refine ⟨⟨[], none, ['٤'], []⟩, ?_, rfl, by decide⟩
    constructor
    case before_white => exact List.all_eq_true.mp rfl
    case sign_known => simp
    case digits_run => exact .single (by decide)
    case digits_few => decide
    case after_white => exact List.all_eq_true.mp rfl
  refine ⟨hnegative, hpositive, describes_exactly.1 _ _ _ hnegative hpositive, ?_⟩
  exact ((describes_exactly.2 _).1 _).mpr
    ⟨"::1", 10, 4, ⟨_, _, by rfl, by decide, by decide, hten, hfour⟩, rfl⟩

end Peering.PeerArgument
