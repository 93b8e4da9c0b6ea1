import Peering.Log
import Peering.Text.LowerCase
import Mathlib.Tactic.Common

/-!
# Names of levels in any case

A setting names a level if the text in lower case is one of the names. For this it is enough to
look at the capital letters from A to Z: no other character has a small letter that is used in a
name.
-/

namespace Peering

variable {c : Char} {cs : List Char}

/-- A letter as it is found in names. No name has the letter k, which is the only one of its kind
that is the small letter of a character of another kind. -/
private def isNameLetter (c : Char) : Bool := c.toNat < 0x80 && c != 'k' && c != '\x00'

private theorem isNameLetter_iff :
    isNameLetter c = true ↔ c.toNat < 0x80 ∧ c ≠ 'k' ∧ c ≠ '\x00' := by
  simp [isNameLetter, and_assoc]

private theorem all_isNameLetter :
    ∀ e ∈ Level.settingNames, e.1.toList.all isNameLetter = true := by decide

private theorem toNat_lt_of_toLower (h : c.toLower.toNat < 0x80) : c.toNat < 0x80 := by
  unfold Char.toLower at h
  split at h
  · rename_i hcapital
    have hle : c.val.toNat ≤ 'Z'.val.toNat := UInt32.le_iff_toNat_le.mp hcapital.2
    exact Nat.lt_of_le_of_lt hle (by decide)
  · exact h

/-- A text without other characters is put in lower case by its capital letters. -/
theorem lowerAfter_eq_map (h : ∀ c ∈ cs, c.toNat < 0x80) (before : List Char) :
    lowerAfter before cs = cs.map Char.toLower := by
  induction cs generalizing before with
  | nil => rfl
  | cons c rest ih =>
    obtain ⟨hc, hrest⟩ := List.forall_mem_cons.mp h
    have hdotted : c ≠ '\u0130' := by
      rintro rfl
      exact absurd hc (by decide)
    have hsigma : c ≠ '\u03a3' := by
      rintro rfl
      exact absurd hc (by decide)
    rw [lowerAfter, if_neg hdotted, if_neg fun h => hsigma h.1, lowerChar, if_pos hc, ih hrest]
    rfl

/-- Other capital letters have other small letters, with one exception. -/
private theorem small_of_holds {r : CapitalRun} (hr : r ∈ capitalRuns) {n : Nat} (hn : 0x80 ≤ n)
    (hholds : r.holds n = true) : 0x80 ≤ r.small n ∨ r.small n = 'k'.toNat := by
  have hruns : ∀ r ∈ capitalRuns, r.last < 0x80 ∨ (0x80 : Int) ≤ r.first + r.shift ∨
      r.first = r.last ∧ (r.first : Int) + r.shift = 0x6b := by decide +kernel
  unfold CapitalRun.holds at hholds
  simp only [Bool.and_eq_true, decide_eq_true_eq] at hholds
  obtain ⟨⟨hfirst, hlast⟩, -⟩ := hholds
  unfold CapitalRun.small
  obtain hlow | hhigh | ⟨hone, hkelvin⟩ := hruns r hr
  · omega
  · omega
  · have hk : 'k'.toNat = 0x6b := rfl
    omega

private theorem toNat_ofNat (n : Nat) : (Char.ofNat n).toNat = n ∨ Char.ofNat n = '\x00' := by
  by_cases hvalid : n.isValidChar
  · exact .inl (congrArg Char.toNat (dif_pos hvalid))
  · exact .inr (dif_neg hvalid)

private theorem toNat_lt_of_lowerChar (h : isNameLetter (lowerChar c) = true) :
    c.toNat < 0x80 := by
  by_contra hc
  rw [isNameLetter_iff] at h
  unfold lowerChar at h
  rw [if_neg hc] at h
  split at h
  · rename_i r hfind
    obtain ⟨hlt, hk, hzero⟩ := h
    have hholds : r.holds c.toNat = true := by simpa using List.find?_some hfind
    have hsame := (toNat_ofNat (r.small c.toNat)).resolve_right hzero
    obtain hhigh | hkelvin :=
      small_of_holds (List.mem_of_find?_eq_some hfind) (Nat.le_of_not_lt hc) hholds
    · omega
    · exact hk (Char.toNat_inj.mp (hsame.trans hkelvin))
  · exact hc h.1

/-- A text of which the lower case has no other letters than a name has no other characters. -/
private theorem toNat_lt_of_lowerAfter (before : List Char)
    (h : ∀ c ∈ lowerAfter before cs, isNameLetter c = true) : ∀ c ∈ cs, c.toNat < 0x80 := by
  induction cs generalizing before with
  | nil => simp
  | cons c rest ih =>
    rw [lowerAfter] at h
    split at h
    · have hdot := h '\u0307' (by simp)
      exact absurd hdot (by decide)
    · split at h
      · have hsigma := h '\u03c2' (by simp)
        exact absurd hsigma (by decide)
      · obtain ⟨hc, hrest⟩ := List.forall_mem_cons.mp h
        exact List.forall_mem_cons.mpr ⟨toNat_lt_of_lowerChar hc, ih _ hrest⟩

/-- A setting names a level exactly if it is a name of this level in lower case. -/
theorem Level.ofSetting?_eq_some_iff {s : String} {level : Level} :
    ofSetting? s = some level ↔
      ∃ name, (name, level) ∈ settingNames ∧ lowerCase s.toList = name.toList := by
  have hname {name : String} {l : Level} (hmem : (name, l) ∈ settingNames) :
      name = s.map Char.toLower ↔ lowerCase s.toList = name.toList := by
    have hletters := List.all_eq_true.mp (all_isNameLetter _ hmem)
    rw [← String.toList_inj, String.toList_map]
    constructor
    · intro heq
      refine (lowerAfter_eq_map (fun c hc => toNat_lt_of_toLower ?_) []).trans heq.symm
      exact (isNameLetter_iff.mp (hletters _ (heq ▸ List.mem_map_of_mem hc))).1
    · intro heq
      have hlow : ∀ c ∈ s.toList, c.toNat < 0x80 :=
        toNat_lt_of_lowerAfter [] fun c hc => hletters c (heq ▸ hc)
      exact heq.symm.trans (lowerAfter_eq_map hlow [])
  unfold ofSetting?
  rw [Option.map_eq_some_iff]
  constructor
  · rintro ⟨⟨name, l⟩, hfind, rfl⟩
    have hmem := List.mem_of_find?_eq_some hfind
    exact ⟨name, hmem, (hname hmem).mp (by simpa using List.find?_some hfind)⟩
  · rintro ⟨name, hmem, heq⟩
    have hmapped := (hname hmem).mpr heq
    rw [← hmapped]
    refine ⟨(name, level), ?_, rfl⟩
    simp only [settingNames, List.mem_cons, Prod.mk.injEq, List.not_mem_nil, or_false] at hmem
    rcases hmem with ⟨rfl, rfl⟩ | ⟨rfl, rfl⟩ | ⟨rfl, rfl⟩ | ⟨rfl, rfl⟩ | ⟨rfl, rfl⟩ <;> decide

end Peering
