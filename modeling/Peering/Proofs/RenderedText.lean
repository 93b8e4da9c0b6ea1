import Peering.Proofs.IntegerLiterals
import Peering.Proofs.RenderedLines
import Peering.Proofs.Validation
import Mathlib.Data.List.Forall2

/-!
# What the running configuration tells

The running configuration is put together without marks between its parts. This file shows that it
still tells the peers: its lines can be told apart, the lines of a peer begin with the one line that
every peer has, and a line tells what it shows.
-/

namespace Peering

namespace Value

/-- The value if it counts as set, and null for all that do not. -/
def ifSet (v : Value) : Value := v.orElse .null

end Value

namespace RunningConfig

/-- A peer that has been accepted and whose texts stand in one line. -/
structure FitsLines (p : Peer) : Prop where
  /-- The peer has been accepted. -/
  valid : ∃ a, p.validate = .ok a
  /-- The address is a single word. -/
  address_plain : ∀ a, p.address = .text a → ' ' ∉ a.toList ∧ '\n' ∉ a.toList
  /-- The texts that may be missing do not go beyond a line. -/
  optional_plain : ∀ v ∈ p.freeFields, v = .null ∨ ∃ s, v = .text s ∧ '\n' ∉ s.toList

/-- What the running configuration shows of two peers is the same. -/
structure SameShown (p q : Peer) : Prop where
  /-- The peers have the same address. -/
  address_eq : p.address = q.address
  /-- The neighbours are in the same AS. -/
  remoteAsn_eq : p.remoteAsn = q.remoteAsn
  /-- The neighbours may be equally far away. -/
  multihop_eq : p.multihop = q.multihop
  /-- The numbers of prefixes have the same bound. -/
  maxPrefixes_eq : p.maxPrefixes = q.maxPrefixes
  /-- The sessions have the same password, or none. -/
  password_eq : p.password.ifSet = q.password.ifSet
  /-- The sessions are bound to the same interface, or none. -/
  updateSource_eq : p.updateSource.ifSet = q.updateSource.ifSet
  /-- The route maps for what comes in are the same. -/
  routeMapIn_eq : p.routeMapIn.ifSet = q.routeMapIn.ifSet
  /-- The route maps for what goes out are the same. -/
  routeMapOut_eq : p.routeMapOut.ifSet = q.routeMapOut.ifSet
  /-- The prefix lists for what comes in are the same. -/
  prefixListIn_eq : p.prefixListIn.ifSet = q.prefixListIn.ifSet
  /-- The prefix lists for what goes out are the same. -/
  prefixListOut_eq : p.prefixListOut.ifSet = q.prefixListOut.ifSet

section Lists

variable {α β : Type} {l l' : List α} {P : α → Prop} {f : α → β}

/-- A function that tells apart the elements with a property tells apart lists of them. -/
private theorem eq_of_map_eq_on (hf : ∀ a b, P a → P b → f a = f b → a = b)
    (hl : ∀ a ∈ l, P a) (hl' : ∀ a ∈ l', P a) (h : l.map f = l'.map f) : l = l' := by
  induction l generalizing l' with
  | nil => exact (List.map_eq_nil_iff.mp h.symm).symm
  | cons a l ih =>
    cases l' with
    | nil => cases h
    | cons b l' =>
      obtain ⟨hhead, htail⟩ := List.cons.inj h
      rw [hf a b (hl a List.mem_cons_self) (hl' b List.mem_cons_self) hhead,
        ih (fun x hx => hl x (List.mem_cons_of_mem a hx))
          (fun x hx => hl' x (List.mem_cons_of_mem b hx)) htail]

end Lists

section Text

variable {lines lines' : List String}

/-- Lines without a line feed are told by their text. -/
private theorem eq_of_intercalate_eq (hne : lines ≠ []) (hne' : lines' ≠ [])
    (hplain : ∀ s ∈ lines, '\n' ∉ s.toList) (hplain' : ∀ s ∈ lines', '\n' ∉ s.toList)
    (h : "\n".intercalate lines = "\n".intercalate lines') : lines = lines' := by
  have hsplit {l : List String} (hl : l ≠ []) (hfeed : ∀ s ∈ l, '\n' ∉ s.toList) :
      ("\n".intercalate l).toList.splitOn '\n' = l.map String.toList := by
    rw [String.toList_intercalate]
    refine List.splitOn_intercalate '\n' ?_ (by simpa using hl)
    simpa using hfeed
  have hlists := hsplit hne hplain
  rw [h, hsplit hne' hplain'] at hlists
  exact (List.map_injective_iff.mpr fun s t => String.toList_injective) hlists.symm

end Text

section Blocks

variable {p q : Peer} {ps qs : List Peer}

/-- The settings of a peer in use, apart from the AS number that every peer has. -/
private def furtherEntries (p : Peer) : List (Knob × String) :=
  Knob.all.tail.filterMap fun k => (shown? p k).map (k, ·)

private theorem entries_eq (p : Peer) :
    entries p = (.remoteAs, p.remoteAsn.plain) :: furtherEntries p := rfl

private theorem ne_remoteAs_of_mem {e : Knob × String} (h : e ∈ furtherEntries p) :
    e.1 ≠ .remoteAs := by
  obtain ⟨k, hk, hshown⟩ := List.mem_filterMap.mp h
  obtain ⟨text, -, rfl⟩ := Option.map_eq_some_iff.mp hshown
  rintro rfl
  simp [Knob.all] at hk

/-- A peer is in use of a setting with a text if the setting is shown so. -/
theorem mem_entries_iff {k : Knob} {text : String} :
    (k, text) ∈ entries p ↔ shown? p k = some text := by
  have hk : k ∈ Knob.all := by cases k <;> decide
  simp [entries, List.mem_filterMap, hk]

/-- All that is told of a list of peers: the settings in use, each with the address. -/
private def taggedEntries (ps : List Peer) : List (String × Knob × String) :=
  ps.flatMap fun p => (entries p).map (p.address.plain, ·)

private theorem exists_of_mem_taggedEntries {t : String × Knob × String}
    (h : t ∈ taggedEntries ps) : ∃ p ∈ ps, t.1 = p.address.plain ∧ t.2 ∈ entries p := by
  obtain ⟨p, hp, ht⟩ := List.mem_flatMap.mp h
  obtain ⟨e, he, rfl⟩ := List.mem_map.mp ht
  exact ⟨p, hp, rfl, he⟩

/-- The entry is not the first one of a peer. -/
private def isFurther (t : String × Knob × String) : Bool := t.2.1 != .remoteAs

private theorem taggedEntries_cons (p : Peer) (ps : List Peer) :
    taggedEntries (p :: ps) = (p.address.plain, .remoteAs, p.remoteAsn.plain) ::
      ((furtherEntries p).map (p.address.plain, ·) ++ taggedEntries ps) := rfl

private theorem stops_taggedEntries (ps : List Peer) : Stops isFurther (taggedEntries ps) := by
  cases ps with
  | nil => exact stops_nil
  | cons p ps => exact stops_cons.mpr rfl

private theorem isFurther_of_mem {t : String × Knob × String}
    (h : t ∈ (furtherEntries p).map (p.address.plain, ·)) : isFurther t = true := by
  obtain ⟨e, he, rfl⟩ := List.mem_map.mp h
  simpa [isFurther] using ne_remoteAs_of_mem he

/-- Each peer begins with an entry that no peer has a second time, so the peers are told apart even
where their addresses are equal. -/
private theorem forall₂_of_taggedEntries_eq (h : taggedEntries ps = taggedEntries qs) :
    List.Forall₂ (fun p q => p.address.plain = q.address.plain ∧ entries p = entries q) ps qs := by
  induction ps generalizing qs with
  | nil =>
    cases qs with
    | nil => exact .nil
    | cons q qs => cases h
  | cons p ps ih =>
    cases qs with
    | nil => cases h
    | cons q qs =>
      rw [taggedEntries_cons, taggedEntries_cons] at h
      obtain ⟨hfirst, hrest⟩ := List.cons.inj h
      obtain ⟨haddress, hremote⟩ := Prod.mk.inj hfirst
      obtain ⟨hfurther, hothers⟩ := eq_of_run_append_eq hrest (fun t => isFurther_of_mem)
        (fun t => isFurther_of_mem) (stops_taggedEntries ps) (stops_taggedEntries qs)
      rw [haddress] at hfurther
      refine .cons ⟨haddress, ?_⟩ (ih hothers)
      rw [entries_eq, entries_eq, hremote,
        List.map_injective_iff.mpr (fun e e' h => (Prod.mk.inj h).2) hfurther]

end Blocks

section Fields

variable {p q : Peer} {v w : Value} {k : Knob} {text : String}

/-- The settings that are shown if they count as true. -/
private def textKnobs : List Knob :=
  [.password, .updateSource, .routeMapIn, .routeMapOut, .prefixListIn, .prefixListOut]

private theorem mem_freeFields (hk : k ∈ textKnobs) : k.valueOf p ∈ p.freeFields := by
  have hmap : textKnobs.map (Knob.valueOf p) = p.freeFields := rfl
  rw [← hmap]
  exact List.mem_map_of_mem hk

private theorem isInUse_of_mem_textKnobs (hk : k ∈ textKnobs) :
    isInUse p k = (k.valueOf p).isTruthy := by
  cases k <;> first | rfl | exact absurd hk (by decide)

private theorem FitsLines.isValid (h : FitsLines p) : p.IsValid := by
  obtain ⟨a, ha⟩ := h.valid
  exact (Peer.validate_eq_ok_iff.mp ha).1

private theorem FitsLines.exists_remoteAsn (h : FitsLines p) : ∃ n, p.remoteAsn = .int n := by
  obtain ⟨n, hn, -⟩ := h.isValid.asn_range ("remote_asn", p.remoteAsn) (by simp [Peer.asnFields])
  exact ⟨n, hn⟩

private theorem FitsLines.exists_multihop (h : FitsLines p) : ∃ n, p.multihop = .int n ∧ 0 ≤ n :=
  h.isValid.count_nonneg ("multihop", p.multihop) (by simp [Peer.countFields])

private theorem FitsLines.exists_maxPrefixes (h : FitsLines p) :
    ∃ n, p.maxPrefixes = .int n ∧ 0 ≤ n :=
  h.isValid.count_nonneg ("max_prefixes", p.maxPrefixes) (by simp [Peer.countFields])

/-- A setting is a number, or null, or a text in one line. -/
private theorem FitsLines.valueOf (h : FitsLines p) (k : Knob) :
    (∃ n, k.valueOf p = .int n) ∨ k.valueOf p = .null ∨
      ∃ s, k.valueOf p = .text s ∧ '\n' ∉ s.toList := by
  obtain ⟨hops, hhops, -⟩ := h.exists_multihop
  obtain ⟨limit, hlimit, -⟩ := h.exists_maxPrefixes
  cases k with
  | remoteAs => exact .inl h.exists_remoteAsn
  | multihop => exact .inl ⟨hops, hhops⟩
  | maximumPrefix => exact .inl ⟨limit, hlimit⟩
  | _ => exact .inr (h.optional_plain _ (mem_freeFields (by decide)))

private theorem plain_int (n : Int) : (Value.int n).plain = intText n := rfl

private theorem feed_not_mem_intText (n : Int) : '\n' ∉ (intText n).toList := by
  intro h
  rw [intText, String.toList_ofList] at h
  rcases mem_integerText h with hminus | hdigit
  · exact absurd hminus (by decide)
  · exact absurd hdigit (by decide)

/-- What is shown of a setting stands in one line. -/
private theorem FitsLines.feed_not_mem (h : FitsLines p) (hshown : shown? p k = some text) :
    '\n' ∉ text.toList := by
  obtain rfl : (k.valueOf p).plain = text := by
    unfold shown? at hshown
    split_ifs at hshown
    exact Option.some.inj hshown
  obtain ⟨n, hn⟩ | hnull | ⟨s, hs, hplain⟩ := h.valueOf k
  · rw [hn, plain_int]
    exact feed_not_mem_intText n
  · rw [hnull]
    decide
  · rw [hs]
    exact hplain

/-- Texts that are shown in the same way are set to the same text, or are both not set. -/
private theorem ifSet_eq_of_shown (hv : v = .null ∨ ∃ s, v = .text s ∧ '\n' ∉ s.toList)
    (hw : w = .null ∨ ∃ s, w = .text s ∧ '\n' ∉ s.toList)
    (h : (if v.isTruthy = true then some v.plain else none) =
      if w.isTruthy = true then some w.plain else none) : v.ifSet = w.ifSet := by
  obtain rfl | ⟨s, rfl, -⟩ := hv <;> obtain rfl | ⟨t, rfl, -⟩ := hw
  · rfl
  · by_cases ht : t = "" <;> simp_all [Value.ifSet, Value.orElse, Value.isTruthy]
  · by_cases hs : s = "" <;> simp_all [Value.ifSet, Value.orElse, Value.isTruthy]
  · by_cases hs : s = "" <;> by_cases ht : t = "" <;>
      simp_all [Value.ifSet, Value.orElse, Value.isTruthy]

private theorem intText_injective {m n : Int} (h : intText m = intText n) : m = n :=
  integerText_injective (String.ofList_injective h)

/-- Counts that are shown in the same way are equal, as zero is the only one that is not shown. -/
private theorem count_eq_of_shown (hv : ∃ n, v = .int n ∧ 0 ≤ n) (hw : ∃ n, w = .int n ∧ 0 ≤ n)
    (h : (if v.number?.any Number.isPositive = true then some v.plain else none) =
      if w.number?.any Number.isPositive = true then some w.plain else none) : v = w := by
  obtain ⟨m, rfl, hm⟩ := hv
  obtain ⟨n, rfl, hn⟩ := hw
  simp only [Value.number?, Option.any_some, Number.isPositive, decide_eq_true_eq, plain_int] at h
  split_ifs at h with hmpos hnpos hnpos
  · rw [intText_injective (Option.some.inj h)]
  · rw [show m = n by omega]

/-- Peers with the same settings in use are shown in the same way. -/
private theorem sameShown_of_entries_eq (hp : FitsLines p) (hq : FitsLines q)
    (haddress : p.address.plain = q.address.plain) (h : entries p = entries q) :
    SameShown p q := by
  have hshown (k : Knob) : shown? p k = shown? q k :=
    Option.ext fun text => by rw [← mem_entries_iff, h, mem_entries_iff]
  have htext (k : Knob) (hk : k ∈ textKnobs) : (k.valueOf p).ifSet = (k.valueOf q).ifSet := by
    refine ifSet_eq_of_shown (hp.optional_plain _ (mem_freeFields hk))
      (hq.optional_plain _ (mem_freeFields hk)) ?_
    rw [← isInUse_of_mem_textKnobs hk, ← isInUse_of_mem_textKnobs hk]
    exact hshown k
  constructor
  case address_eq =>
    obtain ⟨a, ha⟩ := hp.valid
    obtain ⟨b, hb⟩ := hq.valid
    rw [Peer.address_of_validate ha, Peer.address_of_validate hb] at haddress ⊢
    exact congrArg Value.text haddress
  case remoteAsn_eq =>
    obtain ⟨m, hm⟩ := hp.exists_remoteAsn
    obtain ⟨n, hn⟩ := hq.exists_remoteAsn
    have hremote : p.remoteAsn.plain = q.remoteAsn.plain := Option.some.inj (hshown .remoteAs)
    rw [hm, hn, plain_int, plain_int] at hremote
    rw [hm, hn, intText_injective hremote]
  case multihop_eq =>
    exact count_eq_of_shown hp.exists_multihop hq.exists_multihop (hshown .multihop)
  case maxPrefixes_eq =>
    exact count_eq_of_shown hp.exists_maxPrefixes hq.exists_maxPrefixes (hshown .maximumPrefix)
  case password_eq => exact htext .password (by decide)
  case updateSource_eq => exact htext .updateSource (by decide)
  case routeMapIn_eq => exact htext .routeMapIn (by decide)
  case routeMapOut_eq => exact htext .routeMapOut (by decide)
  case prefixListIn_eq => exact htext .prefixListIn (by decide)
  case prefixListOut_eq => exact htext .prefixListOut (by decide)

end Fields

section Lines

variable {p : Peer} {ps qs : List Peer} {lines : List String} {m n : Int} {text : String}

/-- The lines of the peers, and those around them if there are peers. -/
private theorem eq_of_stanza (h : stanza ps (.int m) = .ok lines) :
    ps = [] ∧ lines = [] ∨ ps ≠ [] ∧ lines = ("router bgp " ++ intText m) ::
      ((taggedEntries ps).map fun t => knobLine t.1 t.2) ++ ["!"] := by
  unfold stanza at h
  by_cases hempty : ps.isEmpty = true
  · rw [if_pos hempty] at h
    exact .inl ⟨List.isEmpty_iff.mp hempty, (Except.ok.inj h).symm⟩
  · rw [if_neg hempty] at h
    obtain ⟨router, hrouter, h⟩ := exists_of_bind_ok h
    obtain ⟨blocks, hblocks, h⟩ := exists_of_bind_ok h
    obtain rfl := Except.ok.inj h
    refine .inr ⟨by simpa using hempty, ?_⟩
    rw [eq_plain_of_written hrouter, plain_int,
      eq_map_of_mapM (fun p lines => eq_of_neighborLines) hblocks]
    simp [taggedEntries, List.flatMap_def, Function.comp_def]

/-- The line of a setting does not go beyond its end. -/
private theorem feed_not_mem_knobLine (hp : FitsLines p) {e : Knob × String}
    (he : e ∈ entries p) : '\n' ∉ (knobLine p.address.plain e).toList := by
  obtain ⟨k, text⟩ := e
  obtain ⟨a, ha⟩ := hp.valid
  have haddress := Peer.address_of_validate ha
  have hfeed := (hp.address_plain a haddress).2
  have htext := hp.feed_not_mem (mem_entries_iff.mp he)
  have hword : '\n' ∉ k.word.toList := by cases k <;> decide
  have hdirection : '\n' ∉ k.direction.toList := by cases k <;> decide
  rw [toList_knobLine, haddress]
  simp [hfeed, htext, hword, hdirection]

/-- No line goes beyond its end. -/
private theorem feed_not_mem_of_stanza (hps : ∀ p ∈ ps, FitsLines p)
    (h : stanza ps (.int m) = .ok lines) :
    ∀ s ∈ header ++ lines ++ footer, '\n' ∉ s.toList := by
  have hlines : ∀ s ∈ lines, '\n' ∉ s.toList := by
    obtain ⟨-, rfl⟩ | ⟨-, rfl⟩ := eq_of_stanza h
    · simp
    · intro s hs
      rw [List.mem_append, List.mem_cons, List.mem_singleton, List.mem_map] at hs
      obtain (rfl | ⟨t, ht, rfl⟩) | rfl := hs
      · simp [feed_not_mem_intText]
      · obtain ⟨p, hp, haddress, he⟩ := exists_of_mem_taggedEntries ht
        rw [haddress]
        exact feed_not_mem_knobLine (hps p hp) he
      · decide
  have hheader : ∀ s ∈ header, '\n' ∉ s.toList := by decide
  have hfooter : ∀ s ∈ footer, '\n' ∉ s.toList := by decide
  intro s hs
  rw [List.mem_append, List.mem_append] at hs
  obtain (hs | hs) | hs := hs
  · exact hheader s hs
  · exact hlines s hs
  · exact hfooter s hs

/-- The text tells the lines of the peers. -/
private theorem stanza_eq_of_render (hps : ∀ p ∈ ps, FitsLines p) (hqs : ∀ q ∈ qs, FitsLines q)
    (hp : render ps (.int m) = .ok text) (hq : render qs (.int n) = .ok text) :
    ∃ lines, stanza ps (.int m) = .ok lines ∧ stanza qs (.int n) = .ok lines := by
  obtain ⟨lines, hlines, htext⟩ := exists_of_bind_ok hp
  obtain ⟨lines', hlines', htext'⟩ := exists_of_bind_ok hq
  have hends := (Except.ok.inj htext).trans (Except.ok.inj htext').symm
  have hjoined : "\n".intercalate (header ++ lines ++ footer) =
      "\n".intercalate (header ++ lines' ++ footer) := by
    have hchars := congrArg String.toList hends
    rw [String.toList_append, String.toList_append] at hchars
    exact String.toList_injective (List.append_cancel_right hchars)
  have hall := eq_of_intercalate_eq (by simp [header]) (by simp [header])
    (feed_not_mem_of_stanza hps hlines) (feed_not_mem_of_stanza hqs hlines') hjoined
  obtain rfl : lines = lines' := List.append_cancel_left (List.append_cancel_right hall)
  exact ⟨lines, hlines, hlines'⟩

/-- The lines of the peers tell their settings. -/
private theorem taggedEntries_eq_of_lines (hps : ∀ p ∈ ps, FitsLines p)
    (hqs : ∀ q ∈ qs, FitsLines q)
    (h : (taggedEntries ps).map (fun t => knobLine t.1 t.2) =
      (taggedEntries qs).map fun t => knobLine t.1 t.2) : taggedEntries ps = taggedEntries qs := by
  have hblank {rs : List Peer} (hrs : ∀ r ∈ rs, FitsLines r) :
      ∀ t ∈ taggedEntries rs, ' ' ∉ t.1.toList := by
    intro t ht
    obtain ⟨r, hr, haddress, -⟩ := exists_of_mem_taggedEntries ht
    obtain ⟨a, ha⟩ := (hrs r hr).valid
    have htext := Peer.address_of_validate ha
    rw [haddress, htext]
    exact ((hrs r hr).address_plain a htext).1
  refine eq_of_map_eq_on (fun t u ht hu hline => ?_) (hblank hps) (hblank hqs) h
  obtain ⟨haddress, hentry⟩ := knobLine_injective ht hu hline
  exact Prod.ext haddress hentry

/-- The running configuration tells the peers it was made of: where two lists of peers are shown by
the same text, they show the same peers in the same order, and the same router if there are any. -/
theorem sameShown_of_render (hps : ∀ p ∈ ps, FitsLines p) (hqs : ∀ q ∈ qs, FitsLines q)
    (hp : render ps (.int m) = .ok text) (hq : render qs (.int n) = .ok text) :
    List.Forall₂ SameShown ps qs ∧ (ps ≠ [] → m = n) := by
  obtain ⟨lines, hlines, hlines'⟩ := stanza_eq_of_render hps hqs hp hq
  obtain ⟨rfl, rfl⟩ | ⟨-, rfl⟩ := eq_of_stanza hlines <;>
    obtain ⟨rfl, hsame⟩ | ⟨-, hsame⟩ := eq_of_stanza hlines'
  · exact ⟨.nil, fun hne => absurd rfl hne⟩
  · cases hsame
  · cases hsame
  · obtain ⟨hrouter, hrest⟩ := List.cons.inj hsame
    have htagged := taggedEntries_eq_of_lines hps hqs (List.append_cancel_right hrest)
    refine ⟨?_, fun _ => ?_⟩
    · have hpeers := forall₂_of_taggedEntries_eq htagged
      refine List.forall₂_iff_zip.mpr ⟨hpeers.length_eq, fun {p q} hpq => ?_⟩
      obtain ⟨hp, hq⟩ := List.of_mem_zip hpq
      obtain ⟨haddress, hentries⟩ := List.forall₂_zip hpeers hpq
      exact sameShown_of_entries_eq (hps p hp) (hqs q hq) haddress hentries
    · have hchars := congrArg String.toList hrouter
      rw [String.toList_append, String.toList_append] at hchars
      exact intText_injective (String.toList_injective (List.append_cancel_left hchars))

/-- A peer with nothing but its AS numbers. -/
private def simplePeer : Peer :=
  { address := .text "10.0.0.2", localAsn := .int 65001, remoteAsn := .int 65002 }

/-- The same peer with a route map whose name ends like a direction, and with a password that may be
empty. -/
private def mappedPeer (password : Value) : Peer :=
  { simplePeer with password := password, routeMapIn := .text "a in" }

private theorem fitsLines_simplePeer : FitsLines simplePeer where
  valid := ⟨"10.0.0.2", rfl⟩
  address_plain a h := by
    obtain rfl := Value.text.inj h
    decide
  optional_plain v hv := .inl (by simpa [simplePeer, Peer.freeFields] using hv)

private theorem fitsLines_mappedPeer {password : Value} (h : password = .null ∨
    ∃ s, password = .text s ∧ '\n' ∉ s.toList) : FitsLines (mappedPeer password) where
  valid := ⟨"10.0.0.2", rfl⟩
  address_plain a h := by
    obtain rfl := Value.text.inj h
    decide
  optional_plain v hv := by
    simp only [mappedPeer, simplePeer, Peer.freeFields, List.mem_cons, List.not_mem_nil,
      or_false] at hv
    obtain rfl | rfl | rfl | rfl | rfl | rfl := hv
    · exact h
    · exact .inl rfl
    · exact .inr ⟨"a in", rfl, by decide⟩
    · exact .inl rfl
    · exact .inl rfl
    · exact .inl rfl

private def shownText : String := "!\n! neighborsim running configuration\n!\nfrr version 8.0\n" ++
  "frr defaults traditional\n!\nrouter bgp 65001\n neighbor 10.0.0.2 remote-as 65002\n" ++
  " neighbor 10.0.0.2 route-map a in in\n neighbor 10.0.0.2 remote-as 65002\n!\nline vty\n" ++
  "!\nend\n"

/-- An empty password is shown like a missing one, and two peers at one address are told apart. -/
theorem sameShown_of_render_emptyPassword :
    List.Forall₂ SameShown [mappedPeer (.text ""), simplePeer] [mappedPeer .null, simplePeer] ∧
      ([mappedPeer (.text ""), simplePeer] ≠ [] → (65001 : Int) = 65001) := by
  have hempty := fitsLines_mappedPeer (.inr ⟨"", rfl, by decide⟩)
  have hnull := fitsLines_mappedPeer (.inl rfl)
  have hp : (render [mappedPeer (.text ""), simplePeer] (.int 65001)).toOption =
      some shownText := by decide +kernel
  have hq : (render [mappedPeer .null, simplePeer] (.int 65001)).toOption =
      some shownText := by decide +kernel
  exact sameShown_of_render (by simp [hempty, fitsLines_simplePeer])
    (by simp [hnull, fitsLines_simplePeer]) (eq_ok_of_toOption hp) (eq_ok_of_toOption hq)

end Lines

section Congruence

variable {p q : Peer} {ps qs : List Peer} {v w : Value} {line : String → String}

private theorem textLine_ifSet (v : Value) (line : String → String) :
    textLine v.ifSet line = textLine v line := by
  unfold Value.ifSet Value.orElse
  split_ifs with htrue
  · rfl
  · rw [textLine, textLine, if_neg htrue, if_neg (by decide)]

/-- What is not shown of a peer does not matter for its lines. -/
theorem neighborLines_eq_of_sameShown (h : SameShown p q) :
    neighborLines p = neighborLines q := by
  have htext {v w : Value} (hvw : v.ifSet = w.ifSet) (line : String → String) :
      textLine v line = textLine w line := by
    rw [← textLine_ifSet v, hvw, textLine_ifSet]
  simp only [neighborLines, h.address_eq, h.remoteAsn_eq, h.multihop_eq, h.maxPrefixes_eq,
    htext h.password_eq, htext h.updateSource_eq, htext h.routeMapIn_eq, htext h.routeMapOut_eq,
    htext h.prefixListIn_eq, htext h.prefixListOut_eq]

/-- What is not shown of the peers does not matter for the running configuration. -/
theorem render_eq_of_sameShown (h : List.Forall₂ SameShown ps qs) (router : Value) :
    render ps router = render qs router := by
  have hblocks : ps.mapM neighborLines = qs.mapM neighborLines := by
    induction h with
    | nil => rfl
    | cons hpq _ ih =>
      rw [List.mapM_cons, List.mapM_cons, neighborLines_eq_of_sameShown hpq, ih]
  have hempty : ps.isEmpty = qs.isEmpty := by
    cases h <;> rfl
  simp only [render, stanza, hblocks, hempty]

end Congruence

end RunningConfig

end Peering
