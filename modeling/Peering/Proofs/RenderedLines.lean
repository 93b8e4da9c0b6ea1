import Peering.RunningConfig
import Peering.Proofs.Answers
import Peering.Proofs.Runs

/-!
# The lines of a peer in the running configuration

Each setting of a peer that is in use has one line: what all lines of the peer begin with, a word,
the value, and for some a direction. This file says which lines a peer has, and shows that a line
tells the address, the setting and the value, although values may hold blanks and words themselves.
-/

namespace Peering.RunningConfig

/-- A setting that has a line of its own. -/
inductive Knob where
  | remoteAs
  | password
  | multihop
  | updateSource
  | routeMapIn
  | routeMapOut
  | prefixListIn
  | prefixListOut
  | maximumPrefix
  deriving DecidableEq

namespace Knob

/-- All settings, in the order of their lines. -/
def all : List Knob := [remoteAs, password, multihop, updateSource, routeMapIn, routeMapOut,
  prefixListIn, prefixListOut, maximumPrefix]

/-- The word in front of the value. -/
def word : Knob → String
  | remoteAs => "remote-as"
  | password => "password"
  | multihop => "ebgp-multihop"
  | updateSource => "update-source"
  | routeMapIn | routeMapOut => "route-map"
  | prefixListIn | prefixListOut => "prefix-list"
  | maximumPrefix => "maximum-prefix"

/-- The direction behind the value, if the setting has one. -/
def direction : Knob → String
  | routeMapIn | prefixListIn => " in"
  | routeMapOut | prefixListOut => " out"
  | _ => ""

/-- The value of a setting. -/
def valueOf (p : Peer) : Knob → Value
  | remoteAs => p.remoteAsn
  | password => p.password
  | multihop => p.multihop
  | updateSource => p.updateSource
  | routeMapIn => p.routeMapIn
  | routeMapOut => p.routeMapOut
  | prefixListIn => p.prefixListIn
  | prefixListOut => p.prefixListOut
  | maximumPrefix => p.maxPrefixes

end Knob

/-- The setting is in use. Counts are if they are above zero, all others if they count as true, and
the AS number always is. -/
def isInUse (p : Peer) (k : Knob) : Bool :=
  match k with
  | .remoteAs => true
  | .multihop | .maximumPrefix => (k.valueOf p).number?.any Number.isPositive
  | _ => (k.valueOf p).isTruthy

/-- The text of a setting that is in use. -/
def shown? (p : Peer) (k : Knob) : Option String :=
  if isInUse p k then some (k.valueOf p).plain else none

/-- The settings of a peer that are in use, with their texts. -/
def entries (p : Peer) : List (Knob × String) :=
  Knob.all.filterMap fun k => (shown? p k).map (k, ·)

/-- The line for a setting. -/
def knobLine (address : String) (e : Knob × String) : String :=
  lead address ++ " " ++ e.1.word ++ " " ++ e.2 ++ e.1.direction

section Lines

variable {p : Peer} {v : Value} {line : String → String} {lines : List String}

/-- What is written of a value is its text. -/
theorem eq_plain_of_written {text : String} (h : written v = .ok text) :
    text = v.plain := by
  unfold written at h
  split at h
  · exact (Except.ok.inj h).symm
  · cases h

/-- The line of a value that can be shown. -/
private theorem eq_of_map_written
    (h : (written v).map (fun text => [line text]) = .ok lines) : lines = [line v.plain] := by
  cases hwritten : written v with
  | error f => simp [hwritten, Except.map] at h
  | ok text =>
    simp only [hwritten, Except.map, Except.ok.injEq] at h
    rw [← h, eq_plain_of_written hwritten]

private theorem eq_of_textLine (k : Knob) (huse : isInUse p k = (k.valueOf p).isTruthy)
    (h : textLine (k.valueOf p) line = .ok lines) :
    lines = ((shown? p k).map line).toList := by
  unfold textLine at h
  split_ifs at h with htrue
  · simp [shown?, huse, htrue, eq_of_map_written h]
  · simp [shown?, huse, htrue, ← Except.ok.inj h]

private theorem eq_of_countLine (k : Knob)
    (huse : isInUse p k = (k.valueOf p).number?.any Number.isPositive)
    (h : countLine (k.valueOf p) line = .ok lines) :
    lines = ((shown? p k).map line).toList := by
  unfold countLine at h
  split at h
  · rename_i n hn
    split_ifs at h with hpositive
    · simp [shown?, huse, hn, hpositive, eq_of_map_written h]
    · simp [shown?, huse, hn, hpositive, ← Except.ok.inj h]
  · cases h

private theorem filterMap_cons_eq {α β : Type} (f : α → Option β) (a : α) (l : List α) :
    (a :: l).filterMap f = (f a).toList ++ l.filterMap f := by
  cases h : f a with
  | none => rw [List.filterMap_cons_none h, Option.toList_none, List.nil_append]
  | some b => rw [List.filterMap_cons_some h, Option.toList_some, List.singleton_append]

/-- Each setting in use has one line, in order. -/
theorem eq_of_neighborLines (h : neighborLines p = .ok lines) :
    lines = (entries p).map (knobLine p.address.plain) := by
  obtain ⟨address, haddress, h⟩ := exists_of_bind_ok h
  obtain ⟨remote, hremote, h⟩ := exists_of_bind_ok h
  obtain ⟨password, hpassword, h⟩ := exists_of_bind_ok h
  obtain ⟨hops, hhops, h⟩ := exists_of_bind_ok h
  obtain ⟨source, hsource, h⟩ := exists_of_bind_ok h
  obtain ⟨mapIn, hmapIn, h⟩ := exists_of_bind_ok h
  obtain ⟨mapOut, hmapOut, h⟩ := exists_of_bind_ok h
  obtain ⟨listIn, hlistIn, h⟩ := exists_of_bind_ok h
  obtain ⟨listOut, hlistOut, h⟩ := exists_of_bind_ok h
  obtain ⟨limit, hlimit, h⟩ := exists_of_bind_ok h
  obtain rfl := Except.ok.inj h
  obtain rfl := eq_plain_of_written haddress
  obtain rfl := eq_plain_of_written hremote
  obtain rfl := eq_of_textLine .password rfl hpassword
  obtain rfl := eq_of_countLine .multihop rfl hhops
  obtain rfl := eq_of_textLine .updateSource rfl hsource
  obtain rfl := eq_of_textLine .routeMapIn rfl hmapIn
  obtain rfl := eq_of_textLine .routeMapOut rfl hmapOut
  obtain rfl := eq_of_textLine .prefixListIn rfl hlistIn
  obtain rfl := eq_of_textLine .prefixListOut rfl hlistOut
  obtain rfl := eq_of_countLine .maximumPrefix rfl hlimit
  have hremote : shown? p .remoteAs = some p.remoteAsn.plain := rfl
  rw [entries, List.map_filterMap]
  simp only [Knob.all, filterMap_cons_eq, List.filterMap_nil, Option.map_map, hremote,
    Option.map_some, Option.toList_some, List.singleton_append, List.append_nil,
    List.append_assoc]
  simp [Function.comp_def, knobLine, Knob.word, Knob.direction]

end Lines

section Recovery

variable {a a' : String} {e e' : Knob × String}

/-- What stands behind the start that all lines have in common. -/
theorem toList_knobLine (a : String) (e : Knob × String) :
    (knobLine a e).toList = " neighbor ".toList ++
      (a.toList ++ ' ' :: (e.1.word.toList ++ ' ' :: (e.2.toList ++ e.1.direction.toList))) := by
  simp [knobLine, lead]

/-- A setting is told by its word and its direction, even where the value could end like another
direction. -/
private theorem eq_of_word_eq (hword : e.1.word = e'.1.word)
    (hvalue : e.2.toList ++ e.1.direction.toList = e'.2.toList ++ e'.1.direction.toList) :
    e = e' := by
  obtain ⟨k, t⟩ := e
  obtain ⟨k', t'⟩ := e'
  have hlast := congrArg List.getLast? hvalue
  have hknob : k = k' := by
    cases k <;> cases k' <;> first | rfl | simp [Knob.word] at hword
    all_goals simp [Knob.direction, List.getLast?_append] at hlast
  subst hknob
  have htext : t = t' := String.toList_injective (List.append_cancel_right hvalue)
  rw [htext]

/-- A line tells the address, the setting and its text. -/
theorem knobLine_injective (ha : ' ' ∉ a.toList) (ha' : ' ' ∉ a'.toList)
    (h : knobLine a e = knobLine a' e') : a = a' ∧ e = e' := by
  have hword (k : Knob) : ' ' ∉ k.word.toList := by cases k <;> decide
  have hchars := congrArg String.toList h
  rw [toList_knobLine, toList_knobLine, List.append_cancel_left_eq] at hchars
  obtain ⟨haddress, hrest⟩ := eq_of_append_separator_eq hchars ha ha'
  obtain ⟨hwords, hvalue⟩ := eq_of_append_separator_eq hrest (hword _) (hword _)
  exact ⟨String.toList_injective haddress,
    eq_of_word_eq (String.toList_injective hwords) hvalue⟩

end Recovery

end Peering.RunningConfig
