import Peering.Proofs.Invariant

/-!
# How a registration goes on

At a moment a registration is taken out by the request to remove it, or it goes on. If it goes
on, its generation and its time of creation stay, and its session stays where it is unless its
own walk moves it. What holds of every new registration and is kept in this way holds of all
registrations of an engine that is reached.
-/

namespace Peering

open Registration

/-- A session is on its own course. -/
theorem Session.SameCourse.refl (s : Session) : s.SameCourse s := ⟨rfl, rfl, rfl, rfl⟩

/-- Being on the same course is transitive. -/
theorem Session.SameCourse.trans {s s' s'' : Session} (h : s''.SameCourse s')
    (h' : s'.SameCourse s) : s''.SameCourse s :=
  ⟨h.address_eq.trans h'.address_eq, h.state_eq.trans h'.state_eq,
    h.changedAt_eq.trans h'.changedAt_eq, h.history_eq.trans h'.history_eq⟩

namespace Engine

/-- The address is registered under the generation. -/
def IsLive (e : Engine) (address generation : Value) : Prop :=
  e.registry.generationOf.get? address = some generation

/-- The session at an address, if it is registered. -/
def sessionAt? (e : Engine) (address : Value) : Option Session :=
  e.registry.sessionOf.get? address

/-- At the moment, a walk that was started for a registration has a turn. -/
def HasTurn (e : Engine) (m : Moment) (address generation : Value) : Prop :=
  ∃ i o heeding w, m.move = .turn i o heeding ∧ e.walk? i = some w ∧
    w.address = address ∧ w.generation = generation

/-- At the moment, an address is added successfully. -/
def Adds (e : Engine) (m : Moment) (address : Value) : Prop :=
  ∃ input p, m.move = .call (.addPeer input) ∧ input.peer = .ok p ∧ p.address = address ∧
    (e.meet m).result = .ok .done

/-- At the moment, an address is removed successfully. -/
def Removes (e : Engine) (m : Moment) (address : Value) : Prop :=
  m.move = .call (.removePeer address) ∧ (e.meet m).result = .ok .done

/-- At the moment, the peer at an address is updated successfully. -/
def Updates (e : Engine) (m : Moment) (address : Value) : Prop :=
  ∃ input p, m.move = .call (.updatePeer input) ∧ input.peer = .ok p ∧ p.address = address ∧
    (e.meet m).result = .ok .done

/-- At the moment, one registration becomes the other. -/
structure Carries (e : Engine) (m : Moment) (r r' : Registration) : Prop where
  /-- The address and the generation stay. -/
  start_eq : r'.start = r.start
  /-- The time of creation stays. -/
  createdAt_eq : r'.peer.createdAt = r.peer.createdAt
  /-- The session stays where it is, or the walk of the registration moves it. -/
  course : r'.session.SameCourse r.session ∨
    e.HasTurn m (.text r.address) (.int r.generation) ∧ r'.session = (r.session.advance m.now).1

variable {e : Engine} {l l' : List Registration} {starts : List Start} {m : Moment}

/-- A registration may stay as it is. -/
theorem Carries.refl (e : Engine) (m : Moment) (r : Registration) : e.Carries m r r :=
  ⟨rfl, rfl, Or.inl (.refl _)⟩

/-- A moment does not change the generation of a registration. -/
theorem Carries.generation_eq {r r' : Registration} (h : e.Carries m r r') :
    r'.generation = r.generation :=
  congrArg Start.generation h.start_eq

/-- A change at an address carries the registration there and leaves all others. -/
private theorem exists_carries_adjust {v a : Value} {r : Registration}
    {g : Registration → Registration} (hr : at? l a = some r)
    (haddress : ∀ r, (g r).address = r.address) (hg : v = a → e.Carries m r (g r)) :
    ∃ r', at? (adjust l v g) a = some r' ∧ e.Carries m r r' := by
  rw [at?_adjust haddress, hr, Option.map_some]
  by_cases hv : matchesAt v r = true
  · rw [if_pos hv]
    exact ⟨g r, rfl, hg ((matchesAt_iff.mp hv).trans (mem_of_at? hr).2.symm)⟩
  · rw [if_neg hv]
    exact ⟨r, rfl, .refl e m r⟩

/-- A registration is removed or goes on. -/
theorem Step.removes_or_carries (hstep : e.Step l m l') {a : Value} {r : Registration}
    (hr : at? l a = some r) :
    e.Removes m a ∧ at? l' a = none ∨ ∃ r', at? l' a = some r' ∧ e.Carries m r r' := by
  cases hstep with
  | idle => exact Or.inr ⟨r, hr, .refl e m r⟩
  | quiet => exact Or.inr ⟨r, hr, .refl e m r⟩
  | closed => exact Or.inr ⟨r, hr, .refl e m r⟩
  | added =>
    right
    refine ⟨r, ?_, .refl e m r⟩
    rw [at?_append_singleton, hr]
    rfl
  | @removed v _ hmove _ hresult =>
    by_cases hv : matchesAt v r = true
    · left
      have hva : v = a := (matchesAt_iff.mp hv).trans (mem_of_at? hr).2.symm
      refine ⟨⟨hva ▸ hmove, hresult⟩, ?_⟩
      rw [at?_without, hr]
      simp [hv]
    · right
      refine ⟨r, ?_, .refl e m r⟩
      rw [at?_without, hr]
      simp [hv]
  | @updated input p s hmove hpeer hs =>
    right
    refine exists_carries_adjust hr (fun _ => rfl) fun hpa => ⟨rfl, ?_, Or.inl (.refl _)⟩
    rw [hpa, hr] at hs
    obtain rfl := Option.some.inj hs
    rfl
  | @noted c v s session hmove hadd hremove hs hsame =>
    right
    refine exists_carries_adjust hr (fun _ => rfl) fun hva => ⟨rfl, rfl, Or.inl ?_⟩
    rw [hva, hr] at hs
    obtain rfl := Option.some.inj hs
    exact hsame
  | @moved i o heeding w w' s hmove hw hs hgeneration =>
    right
    refine exists_carries_adjust hr (fun _ => rfl) fun hwa => ⟨rfl, rfl, Or.inr ?_⟩
    rw [hwa, hr] at hs
    obtain rfl := Option.some.inj hs
    exact ⟨⟨i, o, heeding, w, hmove, hw, hwa.trans (mem_of_at? hr).2, hgeneration⟩, rfl⟩

/-- A registration that is there after a moment went on, or has just been made. -/
theorem Step.carries_or_initial (hstep : e.Step l m l') {a : Value} {r' : Registration}
    (hr' : at? l' a = some r') :
    (∃ r, at? l a = some r ∧ e.Carries m r r') ∨
      (e.Adds m a ∧ ∃ b p, r' = Registration.initial b p e.nextGeneration m.now) := by
  cases hr : at? l a with
  | some r =>
    left
    rcases hstep.removes_or_carries hr with ⟨_, hnone⟩ | ⟨r'', hr'', hcarries⟩
    · rw [hnone] at hr'
      cases hr'
    · rw [hr''] at hr'
      obtain rfl := Option.some.inj hr'
      exact ⟨r, rfl, hcarries⟩
  | none =>
    right
    cases hstep with
    | @added input p b hmove hp hvalid _ hresult =>
      rw [at?_append_singleton, hr, Option.none_or] at hr'
      split at hr'
      · rename_i hmatch
        have hab : p.address = a :=
          (Peer.address_of_validate hvalid).trans (matchesAt_iff.mp hmatch).symm
        exact ⟨⟨input, p, hmove, hp, hab, hresult⟩, b, p, (Option.some.inj hr').symm⟩
      · cases hr'
    | removed =>
      rw [at?_without, hr] at hr'
      cases hr'
    | idle | quiet | closed =>
      rw [hr] at hr'
      cases hr'
    | updated | noted | moved =>
      rw [at?_adjust, hr] at hr'
      · cases hr'
      · intro s
        rfl

/-- A successful request to add an address puts a new registration at the end. -/
theorem Step.eq_append_of_adds (hstep : e.Step l m l') {a : Value} (hadds : e.Adds m a) :
    ∃ b p, a = .text b ∧ at? l a = none ∧
      l' = l ++ [Registration.initial b p e.nextGeneration m.now] := by
  obtain ⟨input, p, hmove, hp, rfl, hresult⟩ := hadds
  cases hstep with
  | idle _ _ hfails =>
    obtain ⟨f, hf⟩ := hfails _ hmove rfl
    rw [hresult] at hf
    cases hf
  | added hmove' hp' hvalid hnew =>
    rw [hmove] at hmove'
    obtain rfl := Call.addPeer.inj (Move.call.inj hmove')
    rw [hp] at hp'
    obtain rfl := Except.ok.inj hp'
    have haddress := Peer.address_of_validate hvalid
    exact ⟨_, p, haddress, haddress ▸ hnew, rfl⟩
  | noted hmove' hadd =>
    rw [hmove] at hmove'
    exact absurd (Move.call.inj hmove').symm (hadd input)
  | removed hmove' | updated hmove' | quiet hmove' | moved hmove' | closed hmove' =>
    rw [hmove] at hmove'
    cases hmove'

/-- A successful request to remove an address takes out the registration there. -/
theorem Step.eq_without_of_removes (hstep : e.Step l m l') {a : Value}
    (hremoves : e.Removes m a) : ∃ r, at? l a = some r ∧ l' = without l a := by
  obtain ⟨hmove, hresult⟩ := hremoves
  cases hstep with
  | idle _ _ hfails =>
    obtain ⟨f, hf⟩ := hfails _ hmove rfl
    rw [hresult] at hf
    cases hf
  | removed hmove' hr =>
    rw [hmove] at hmove'
    obtain rfl := Call.removePeer.inj (Move.call.inj hmove')
    exact ⟨_, hr, rfl⟩
  | noted hmove' _ hremove =>
    rw [hmove] at hmove'
    exact absurd (Move.call.inj hmove').symm (hremove a)
  | added hmove' | updated hmove' | quiet hmove' | moved hmove' | closed hmove' =>
    rw [hmove] at hmove'
    cases hmove'

/-- An address that is removed successfully is not registered any more. -/
theorem Step.at?_of_removes (hstep : e.Step l m l') {a : Value} (hremoves : e.Removes m a) :
    at? l' a = none := by
  obtain ⟨_, _, rfl⟩ := hstep.eq_without_of_removes hremoves
  rw [at?_without, Option.filter_eq_none_iff]
  intro r hr
  simp [matchesAt_iff.mpr (mem_of_at? hr).2]

/-- An address is registered after a moment if it has been added there, or was registered before
and has not been removed there. -/
theorem Step.isSome_at?_iff (hstep : e.Step l m l') {a : Value} :
    (at? l' a).isSome = true ↔
      e.Adds m a ∨ (at? l a).isSome = true ∧ ¬e.Removes m a := by
  constructor
  · intro h
    obtain ⟨r', hr'⟩ := Option.isSome_iff_exists.mp h
    rcases hstep.carries_or_initial hr' with ⟨r, hr, _⟩ | ⟨hadds, _⟩
    · right
      refine ⟨by rw [hr]; rfl, fun hremoves => ?_⟩
      rw [hstep.at?_of_removes hremoves] at hr'
      cases hr'
    · exact Or.inl hadds
  · rintro (hadds | ⟨h, hremoves⟩)
    · obtain ⟨b, p, rfl, hnone, rfl⟩ := hstep.eq_append_of_adds hadds
      simp [at?_append_singleton, hnone, Registration.initial]
    · obtain ⟨r, hr⟩ := Option.isSome_iff_exists.mp h
      rcases hstep.removes_or_carries hr with ⟨hremoves', _⟩ | ⟨r', hr', _⟩
      · exact absurd hremoves' hremoves
      · rw [hr']
        rfl

/-- Generations are never given out again. -/
theorem Step.next_le (hstep : e.Step l m l') :
    e.nextGeneration ≤ (e.after m).nextGeneration := by
  cases hstep with
  | idle htables => exact htables.next_le
  | added _ _ _ _ _ hafter =>
    rw [hafter]
    simp only [enrolled, spent]
    omega
  | removed _ _ _ _ _ _ hnext => exact Int.le_of_eq hnext.symm
  | closed _ _ _ _ hnext => exact Int.le_of_eq hnext.symm
  | updated _ _ _ _ hafter => exact Int.le_of_eq (by rw [hafter]; rfl)
  | noted _ _ _ _ _ hafter => exact Int.le_of_eq (by rw [hafter]; rfl)
  | quiet _ _ _ _ hafter => exact Int.le_of_eq (by rw [hafter])
  | moved _ _ _ _ _ _ hafter => exact Int.le_of_eq (by rw [hafter])

namespace Holds

/-- The live generation is that of the registration at the address. -/
theorem isLive_iff (h : e.Holds l starts) {a g : Value} :
    e.IsLive a g ↔ ∃ r, at? l a = some r ∧ .int r.generation = g := by
  rw [IsLive, h.registry_eq]
  simp only [Registry.ofList, get?_column, Option.map_eq_some_iff]

/-- The session at an address is that of the registration there. -/
theorem sessionAt?_eq (h : e.Holds l starts) (a : Value) :
    e.sessionAt? a = (at? l a).map Registration.session := by
  rw [sessionAt?, h.registry_eq]
  exact get?_column l Registration.session a

/-- A live generation and a session are those of one registration. -/
theorem registration_of_isLive (h : e.Holds l starts) {a g : Value} {s : Session}
    (hlive : e.IsLive a g) (hs : e.sessionAt? a = some s) :
    ∃ r, at? l a = some r ∧ .int r.generation = g ∧ r.session = s := by
  obtain ⟨r, hr, hgeneration⟩ := h.isLive_iff.mp hlive
  rw [h.sessionAt?_eq, hr] at hs
  exact ⟨r, hr, hgeneration, Option.some.inj hs⟩

/-- Where a generation is live before and after a moment, its registration goes on. -/
theorem carries_of_isLive (h : e.Holds l starts) {a g : Value} {s s' : Session}
    (hlive : e.IsLive a g) (hlive' : (e.after m).IsLive a g) (hs : e.sessionAt? a = some s)
    (hs' : (e.after m).sessionAt? a = some s') :
    ∃ r r', r.session = s ∧ r'.session = s' ∧ at? l a = some r ∧ .int r.generation = g ∧
      e.Carries m r r' := by
  obtain ⟨l', _, hstep, _, h'⟩ := h.exists_after m
  obtain ⟨r, hr, hgeneration, hsession⟩ := h.registration_of_isLive hlive hs
  obtain ⟨r', hr', _, hsession'⟩ := h'.registration_of_isLive hlive' hs'
  rcases hstep.removes_or_carries hr with ⟨_, hnone⟩ | ⟨t, ht, hc⟩
  · rw [hnone] at hr'
    cases hr'
  · rw [ht] at hr'
    obtain rfl := Option.some.inj hr'
    exact ⟨r, t, hsession, hsession', hr, hgeneration, hc⟩

/-- No address is registered twice. -/
theorem nodup_addresses (h : e.Holds l starts) : (l.map Registration.address).Nodup := by
  have hnodup := h.nodup
  rw [List.map_map] at hnodup
  exact hnodup

/-- No key is there twice in the tables. -/
theorem nodup_keys (h : e.Holds l starts) : (l.map fun r => Value.text r.address).Nodup := by
  have htexts : (l.map fun r => Value.text r.address) =
      (l.map Registration.address).map Value.text := by
    rw [List.map_map]
    rfl
  rw [htexts]
  exact h.nodup_addresses.map fun _ _ heq => Value.text.inj heq

/-- A registration is found at its own address. -/
theorem at?_of_mem (h : e.Holds l starts) {r : Registration} (hr : r ∈ l) :
    at? l (.text r.address) = some r :=
  Registration.at?_of_mem h.nodup_addresses hr

/-- A registration is found at the address at which it started. -/
theorem at?_of_start (h : e.Holds l starts) {r r' : Registration} (hr' : r' ∈ l)
    (hstart : r'.start = r.start) : at? l (.text r.address) = some r' := by
  have haddress : r'.address = r.address := congrArg Start.address hstart
  exact haddress ▸ h.at?_of_mem hr'

/-- No two registrations have one address. -/
theorem eq_of_address (h : e.Holds l starts) {r r' : Registration} (hr : r ∈ l) (hr' : r' ∈ l)
    (haddress : r'.address = r.address) : r' = r := by
  have hat := h.at?_of_mem hr'
  rw [haddress, h.at?_of_mem hr] at hat
  exact (Option.some.inj hat).symm

/-- The generation of a registration was given out. -/
theorem generation_lt (h : e.Holds l starts) {a : Value} {r : Registration}
    (hr : at? l a = some r) : r.generation < e.nextGeneration :=
  h.fresh r.start (h.sublist.subset (List.mem_map_of_mem (mem_of_at? hr).1))

/-- Generations increase in the order of the registrations. -/
theorem generations_increasing (h : e.Holds l starts) :
    (l.map Registration.generation).Pairwise (· < ·) := by
  have hstarts := h.increasing.sublist h.sublist
  rw [List.pairwise_map] at hstarts ⊢
  exact hstarts

/-- No two walks were started for one generation. -/
theorem eq_of_walk_generation (h : e.Holds l starts) {i j : Nat} {v w : Walk}
    (hv : e.walk? i = some v) (hw : e.walk? j = some w)
    (hgeneration : v.generation = w.generation) : i = j := by
  obtain ⟨s, hs, _, hsg⟩ := h.start_of_walk hv
  obtain ⟨t, ht, _, htg⟩ := h.start_of_walk hw
  have hst : s.generation = t.generation := by
    rw [hsg, htg] at hgeneration
    exact Value.int.inj hgeneration
  obtain ⟨hi, rfl⟩ := List.getElem?_eq_some_iff.mp hs
  obtain ⟨hj, rfl⟩ := List.getElem?_eq_some_iff.mp ht
  have hless := List.pairwise_iff_getElem.mp h.increasing
  rcases Nat.lt_trichotomy i j with hij | hij | hij
  · have := hless i j hi hj hij
    omega
  · exact hij
  · have := hless j i hj hi hij
    omega

/-- No two registrations have one generation. -/
theorem eq_of_generation (h : e.Holds l starts) {a b : Value} {r s : Registration}
    (hr : at? l a = some r) (hs : at? l b = some s) (hrs : r.generation = s.generation) :
    r = s := by
  have hnodup : (l.map Registration.generation).Nodup :=
    h.generations_increasing.imp fun hlt => Int.ne_of_lt hlt
  exact List.inj_on_of_nodup_map hnodup (mem_of_at? hr).1 (mem_of_at? hs).1 hrs

end Holds

/-- What all new registrations have and all keep while they go on, all registrations of an
engine have that is reached. -/
theorem Reachable.forall_registered {P : Registration → Prop}
    (hinitial : ∀ a p g now, P (Registration.initial a p g now))
    (hcarries : ∀ (e : Engine) m r r', e.Carries m r r' → P r → P r') (he : e.Reachable) :
    ∃ l starts, e.Holds l starts ∧ ∀ a r, at? l a = some r → P r := by
  refine Reachable.induction
    (P := fun e => ∃ l starts, e.Holds l starts ∧ ∀ a r, at? l a = some r → P r)
    (fun e he => ⟨[], [], he.holds, by simp [at?]⟩) (fun e m ⟨l, starts, h, hl⟩ => ?_) he
  obtain ⟨l', starts', hstep, _, h'⟩ := h.exists_after m
  refine ⟨l', starts', h', fun a r' hr' => ?_⟩
  rcases hstep.carries_or_initial hr' with ⟨r, hr, hc⟩ | ⟨_, b, p, rfl⟩
  · exact hcarries e m r r' hc (hl a r hr)
  · exact hinitial b p e.nextGeneration m.now

/-- A generation that has been given out and that no registration has any more. -/
def IsSpent (e : Engine) (k : Int) : Prop :=
  k < e.nextGeneration ∧ ∃ l starts, e.Holds l starts ∧ ∀ a r, at? l a = some r → r.generation ≠ k

/-- A generation that no registration has any more never comes back. -/
theorem IsSpent.after {k : Int} (hk : e.IsSpent k) (m : Moment) :
    (e.after m).IsSpent k := by
  obtain ⟨hnext, l, starts, h, hl⟩ := hk
  obtain ⟨l', starts', hstep, _, h'⟩ := h.exists_after m
  refine ⟨Int.lt_of_lt_of_le hnext hstep.next_le, l', starts', h', fun a r' hr' => ?_⟩
  rcases hstep.carries_or_initial hr' with ⟨r, hr, hcarries⟩ | ⟨_, b, p, rfl⟩
  · rw [hcarries.generation_eq]
    exact hl a r hr
  · exact (Int.ne_of_lt hnext).symm

/-- A generation that is spent stays so. -/
theorem IsSpent.run {k : Int} (hk : e.IsSpent k) (ms : List Moment) :
    (e.run ms).IsSpent k :=
  run_invariant (P := fun e => e.IsSpent k) (fun _ m he => he.after m) hk ms

/-- A generation that is spent is live nowhere. -/
theorem IsSpent.not_isLive {k : Int} (hk : e.IsSpent k) (a : Value) : ¬e.IsLive a (.int k) := by
  obtain ⟨_, l, starts, h, hl⟩ := hk
  intro hlive
  obtain ⟨r, hr, hgeneration⟩ := h.isLive_iff.mp hlive
  exact hl a r hr (Value.int.inj hgeneration)

/-- The generation of a registration that is removed is spent. -/
theorem Holds.isSpent_of_removes (h : e.Holds l starts) {a : Value} {r : Registration}
    (hr : at? l a = some r) (hremoves : e.Removes m a) : (e.after m).IsSpent r.generation := by
  obtain ⟨l', starts', hstep, _, h'⟩ := h.exists_after m
  have hnone := hstep.at?_of_removes hremoves
  have hnext : r.generation < e.nextGeneration := h.generation_lt hr
  refine ⟨Int.lt_of_lt_of_le hnext hstep.next_le, l', starts', h', fun b s hs heq => ?_⟩
  rcases hstep.carries_or_initial hs with ⟨t, ht, hcarries⟩ | ⟨_, b, p, rfl⟩
  · obtain rfl := h.eq_of_generation ht hr (hcarries.generation_eq.symm.trans heq)
    have hba : b = a := (mem_of_at? ht).2.trans (mem_of_at? hr).2.symm
    rw [hba, hnone] at hs
    cases hs
  · exact absurd heq (Int.ne_of_gt hnext)

/-- If a registration is there at two moments of a run, it has gone on in between. What relates
a registration to itself, holds in succession and is kept at every moment at which a registration
goes on, holds from the one moment to the other. -/
theorem Holds.of_run {R : Registration → Registration → Prop} (hrefl : ∀ r, R r r)
    (htrans : ∀ {r s t}, R r s → R s t → R r t)
    (hcarries : ∀ (e : Engine) m r r', e.Carries m r r' → R r r') (h : e.Holds l starts)
    {a : Value} {r : Registration} (hr : at? l a = some r) {ms : List Moment}
    {last : List Registration} {made : List Start} (h' : (e.run ms).Holds last made)
    {r' : Registration} (hr' : at? last a = some r') (hsame : r'.generation = r.generation) :
    R r r' := by
  induction ms generalizing e l starts r with
  | nil =>
    obtain rfl : l = last := h.eq_of_registry h'.registry_eq
    rw [hr] at hr'
    obtain rfl := Option.some.inj hr'
    exact hrefl r
  | cons m ms ih =>
    obtain ⟨between, _, hstep, _, hbetween⟩ := h.exists_after m
    rcases hstep.removes_or_carries hr with ⟨hremoves, _⟩ | ⟨s, hs, hc⟩
    · have hspent := (h.isSpent_of_removes hr hremoves).run ms
      refine absurd ?_ (hspent.not_isLive a)
      exact h'.isLive_iff.mpr ⟨r', hr', congrArg Value.int hsame⟩
    · have hrest : R s r' := ih hbetween hs h' (hsame.trans hc.generation_eq.symm)
      exact htrans (hcarries e m r s hc) hrest

section Sample

/-- The address of a sample peer. -/
def sampleAddress : Value := .text "192.0.2.1"

/-- A sample peer. -/
def samplePeer : Peer where
  address := sampleAddress
  localAsn := .int 65001
  remoteAsn := .int 65002

/-- A second sample peer. -/
def otherPeer : Peer := { samplePeer with address := .text "192.0.2.2" }

/-- A run in which the observer of state changes raises the cancellation error at its first call,
and the walk that has called it gets one more turn. -/
def calledOffRun : List Moment := [
  ⟨.call (.addPeer (.record samplePeer)), 0.0⟩,
  ⟨.turn 0 {} true, 0.0⟩,
  ⟨.turn 0 { stateChange := some .cancelled } true, 2.0⟩,
  ⟨.turn 0 {} true, 4.0⟩]

/-- Nobody closes the engine in this run. -/
theorem not_close_of_mem_calledOffRun : ∀ m ∈ calledOffRun, m.move ≠ .close := by
  intro m hm
  simp only [calledOffRun, List.mem_cons, List.not_mem_nil, or_false] at hm
  rcases hm with rfl | rfl | rfl | rfl <;> simp

/-- An engine on which a peer has been added, its walk has begun to sleep, and the peer has been
removed and added again. -/
def readded : Engine :=
  ({} : Engine).run [
    ⟨.call (.addPeer (.record samplePeer)), 0.0⟩,
    ⟨.turn 0 {} true, 0.0⟩,
    ⟨.call (.removePeer sampleAddress), 1.0⟩,
    ⟨.call (.addPeer (.record samplePeer)), 1.0⟩]

/-- The sample comes out of a run. -/
theorem reachable_readded : readded.Reachable := ⟨{}, _, ⟨rfl, rfl, rfl, rfl⟩, rfl⟩

end Sample

end Engine

end Peering
