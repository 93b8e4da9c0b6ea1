import Peering.Proofs.Restriction

/-!
# One moment on two engines

What is done to both engines for a registration that counts keeps one of them a part of the other,
and so does what is done to the larger one for a registration that does not count. This file shows
so of each edit, of turns and of the close, and that calls are answered alike.
-/

namespace Peering

open Registration

namespace Engine

namespace Restricts

variable {e e' : Engine} {l : List Registration} {K : Choice} {ρ : Int → Int} {now : Float}
  {v : Value} (R : Restricts e' e l K ρ)

section Edits

variable {e₁ e₁' : Engine} {l₁ : List Registration} {edit : Edit} {b : Bool}

include R

/-- A registration counts if its address and generation do. -/
theorem counts (hK : K (v, e.generationAt v) = b) {r : Registration} (hr : at? l v = some r) :
    K r.start.values = b := by
  obtain ⟨starts, h⟩ := R.holds
  rw [h.generationAt_of_some hr, (mem_of_at? hr).2] at hK
  exact hK

/-- An address that counts has the same registration, under another generation. -/
theorem at?_eq (hK : K (v, e.generationAt v) = true) :
    at? (select K ρ l) v = (at? l v).map (renumbered ρ) :=
  at?_select_of_pos R.nodup fun _ hr => R.counts hK hr

/-- An address that does not count has no registration. -/
theorem at?_eq_none (hK : K (v, e.generationAt v) = false) : at? (select K ρ l) v = none :=
  at?_select_of_neg R.nodup fun _ hr => R.counts hK hr

/-- The number of the walk at an address is another one on the smaller engine. -/
theorem walkNumber?_eq (hK : K (v, e.generationAt v) = true) :
    e'.walkNumber? v = (e.walkNumber? v).map (rank K e.served) := by
  obtain ⟨starts, h⟩ := R.holds
  rw [walkNumber?, R.walkOf_eq]
  exact Table.get?_select fun entry hentry hv => h.any_of_eqv hentry hv fun r hr => R.counts hK hr

/-- The walk at an address serves a registration that counts as the one at the address does. -/
theorem any_walkNumber? (hK : K (v, e.generationAt v) = b) {i : Nat}
    (hi : e.walkNumber? v = some i) : (e.served[i]?).any K = b := by
  obtain ⟨starts, h⟩ := R.holds
  obtain ⟨entry, hentry, rfl⟩ := Option.map_eq_some_iff.mp hi
  have hv : entry.1.eqv v = true := by simpa using List.find?_some hentry
  exact h.any_of_eqv (List.mem_of_find?_eq_some hentry) hv fun r hr => R.counts hK hr

/-- On the smaller engine too, the number of a walk that is started comes in at the end. -/
theorem set_walkOf {a : String} (hnone : at? l (.text a) = none) (i : Nat) :
    e'.walkOf.set (.text a) i = e'.walkOf ++ [(.text a, i)] := by
  obtain ⟨starts, h⟩ := R.holds
  have hcontains : e'.walkOf.contains (.text a) = false :=
    R.walkOf_eq ▸ Table.contains_select (h.contains_walkOf hnone)
  simp [Table.set, hcontains]

omit R in
/-- For a registration that is made, a walk is started after all others. -/
theorem served_enrolled {a : String} {p : Peer} : (e.enrolled l a p now).served =
    e.served ++ [(.text a, .int e.nextGeneration)] := List.map_append

omit R in
/-- A generation that counts was one before, or has just been given out. -/
theorem generation_of_enrolled {a : String} {p : Peer} {g : Int}
    (hg : g ∈ (e.enrolled l a p now).generations K) :
    g ∈ e.generations K ∨ g = e.nextGeneration ∧ K (.text a, .int e.nextGeneration) = true := by
  obtain ⟨b, hmem, hcounts⟩ := hg
  rw [served_enrolled] at hmem
  rcases List.mem_append.mp hmem with hmem | hmem
  · exact .inl ⟨b, hmem, hcounts⟩
  · obtain ⟨rfl, hvalue⟩ := Prod.mk.inj (List.mem_singleton.mp hmem)
    obtain rfl := Value.int.inj hvalue
    exact .inr ⟨rfl, hcounts⟩

/-- A registration that counts is made on both engines. -/
theorem enrolled {a : String} {p : Peer} (hnone : at? l (.text a) = none)
    (hK : K (.text a, .int e.nextGeneration) = true)
    (hholds : ∃ starts, (e.enrolled l a p now).Holds
      (l ++ [Registration.initial a p e.nextGeneration now]) starts) :
    Restricts (e'.enrolled (select K ρ l) a p now) (e.enrolled l a p now)
      (l ++ [Registration.initial a p e.nextGeneration now]) K
      (Function.update ρ e.nextGeneration e'.nextGeneration) := by
  obtain ⟨starts, h⟩ := R.holds
  have hnew : Function.update ρ e.nextGeneration e'.nextGeneration e.nextGeneration =
      e'.nextGeneration := Function.update_self _ _ _
  have R' := R.congr (agreeBelow_update e.nextGeneration ρ e'.nextGeneration)
  have hlater : e'.nextGeneration < (e'.enrolled (select K ρ l) a p now).nextGeneration :=
    Int.lt_succ _
  constructor
  case holds => exact hholds
  case registry_eq =>
    have hregistrations : select K ρ l =
        select K (Function.update ρ e.nextGeneration e'.nextGeneration) l :=
      Registry.ofList_injective (R.registry_eq.symm.trans R'.registry_eq)
    rw [select_append, ← hregistrations, select_singleton_of_pos hK, renumbered]
    simp only [Registration.initial, hnew]
    rfl
  case walks_eq =>
    simp only [Engine.enrolled, Walk.select_append, R'.walks_eq]
    rw [Walk.select_singleton_of_pos hK, Walk.renumbered, Value.renumbered, hnew,
      R.settings.stateDelay_eq]
  case walkOf_eq =>
    have hlast : Table.select K (e.served ++ [(.text a, .int e.nextGeneration)])
        [(.text a, e.served.length)] = [(.text a, e'.walks.length)] := by
      simp [Table.select, hK, rank, R.length_walks]
    have hlength : e.walks.length = e.served.length := by simp [served]
    rw [served_enrolled, Engine.enrolled, Engine.enrolled, h.set_walkOf hnone, R.set_walkOf hnone,
      Table.select_append,
      Table.select_served_append (fun _ hentry => h.walkOf_lt hentry), hlength, hlast,
      ← R.walkOf_eq]
  case settings => exact ⟨R.settings.stateDelay_eq, R.settings.routerAsn_eq, R.settings.enabled_eq⟩
  case increasing =>
    -- the generation that has just been given out is the greatest one on both engines
    intro g hg k hk hlt
    rcases generation_of_enrolled hg with hg | ⟨rfl, _⟩
    · rcases generation_of_enrolled hk with hk | ⟨rfl, _⟩
      · exact R'.increasing hg hk hlt
      · rw [hnew]
        exact R'.fresh g hg
    · rcases generation_of_enrolled hk with hk | ⟨rfl, _⟩
      · exact absurd (h.generations_lt hk) (Int.not_lt.mpr (Int.le_of_lt hlt))
      · exact absurd hlt (Int.lt_irrefl _)
  case fresh =>
    intro g hg
    rcases generation_of_enrolled hg with hg | ⟨rfl, _⟩
    · exact Int.lt_trans (R'.fresh g hg) hlater
    · rw [hnew]
      exact hlater

/-- A registration that does not count is made on the larger engine. -/
theorem enrolled_of_neg {a : String} {p : Peer} (hK : K (.text a, .int e.nextGeneration) = false)
    (hnone : at? l (.text a) = none)
    (hholds : ∃ starts, (e.enrolled l a p now).Holds
      (l ++ [Registration.initial a p e.nextGeneration now]) starts) :
    Restricts e' (e.enrolled l a p now) (l ++ [Registration.initial a p e.nextGeneration now]) K
      ρ := by
  obtain ⟨starts, h⟩ := R.holds
  have hgenerations (g : Int) (hg : g ∈ (e.enrolled l a p now).generations K) :
      g ∈ e.generations K := by
    rcases generation_of_enrolled hg with hg | ⟨_, hcounts⟩
    · exact hg
    · rw [hK] at hcounts
      cases hcounts
  constructor
  case holds => exact hholds
  case registry_eq =>
    rw [select_append, select_singleton_of_neg hK, List.append_nil, R.registry_eq]
  case walks_eq =>
    rw [Engine.enrolled, Walk.select_append, Walk.select_singleton_of_neg hK, List.append_nil,
      R.walks_eq]
  case walkOf_eq =>
    have hlast : Table.select K (e.served ++ [(.text a, .int e.nextGeneration)])
        [(.text a, e.served.length)] = [] := by
      simp [Table.select, hK]
    have hlength : e.walks.length = e.served.length := by simp [served]
    rw [served_enrolled, Engine.enrolled, h.set_walkOf hnone, Table.select_append,
      Table.select_served_append (fun _ hentry => h.walkOf_lt hentry), hlength, hlast,
      List.append_nil, R.walkOf_eq]
  case settings => exact ⟨R.settings.stateDelay_eq, R.settings.routerAsn_eq, R.settings.enabled_eq⟩
  case increasing =>
    exact fun g hg k hk hlt => R.increasing (hgenerations g hg) (hgenerations k hk) hlt
  case fresh => exact fun g hg => R.fresh g (hgenerations g hg)

/-- A registration that counts is taken out on both engines. -/
theorem dropped (hK : K (v, e.generationAt v) = true)
    (hholds : ∃ starts, (e.dropped l v).Holds (without l v) starts) :
    Restricts (e'.dropped (select K ρ l) v) (e.dropped l v) (without l v) K ρ := by
  have hnumbers : (e'.walkNumber? v).toList =
      ((e.walkNumber? v).toList.filter fun i => (e.served[i]?).any K).map (rank K e.served) := by
    rw [R.walkNumber?_eq hK]
    cases hi : e.walkNumber? v with
    | none => rfl
    | some i => simp [R.any_walkNumber? hK hi]
  have hsettings : (e'.dropped (select K ρ l) v).SameSettings (e.dropped l v) :=
    ⟨R.settings.stateDelay_eq, R.settings.routerAsn_eq, R.settings.enabled_eq⟩
  refine R.of_served hholds ?_ ?_ ?_ hsettings (Roster.serves_cancelAll _ _) (Int.le_refl _)
  · rw [select_without]
    exact (Roster.cancelAll_eq _ _).1
  · rw [Engine.dropped, hnumbers]
    exact Roster.select_cancelAll _ rfl R.walks_eq
  · rw [Engine.dropped, Engine.dropped, Table.select_erase, R.walkOf_eq]

/-- A registration that does not count is taken out on the larger engine. -/
theorem dropped_of_neg (hK : K (v, e.generationAt v) = false)
    (hholds : ∃ starts, (e.dropped l v).Holds (without l v) starts) :
    Restricts e' (e.dropped l v) (without l v) K ρ := by
  obtain ⟨starts, h⟩ := R.holds
  have hnumbers : (e.walkNumber? v).toList.filter (fun i => (e.served[i]?).any K) = [] := by
    cases hi : e.walkNumber? v with
    | none => rfl
    | some i => simp [R.any_walkNumber? hK hi]
  have hsettings : e'.SameSettings (e.dropped l v) :=
    ⟨R.settings.stateDelay_eq, R.settings.routerAsn_eq, R.settings.enabled_eq⟩
  refine R.of_served hholds ?_ ?_ ?_ hsettings (Roster.serves_cancelAll _ _) (Int.le_refl _)
  · rw [select_without, without_of_none (R.at?_eq_none hK), R.registry_eq]
  · have hserved : e.walks.map Walk.serves = e.served := rfl
    have hwalks := Roster.select_cancelAll (r := ⟨.ofList (without l v), e.walks⟩)
      (e.walkNumber? v).toList hserved R.walks_eq
    rw [hnumbers] at hwalks
    exact hwalks
  · have herase := Table.erase_select (t := e.walkOf) (v := v) fun entry hentry hv =>
      h.any_of_eqv hentry hv fun r hr => R.counts hK hr
    rw [Engine.dropped, Table.select_erase, herase, R.walkOf_eq]

section Adjusted

variable {g : Registration → Registration} (hstart : ∀ r, (g r).start = r.start)
  (hg : ∀ r, (g r).renumbered ρ = g (r.renumbered ρ))
  (hholds : ∃ starts, (e.withList (adjust l v g)).Holds (adjust l v g) starts)

include hstart hg hholds

/-- A registration is changed on both engines. -/
theorem adjusted :
    Restricts (e'.withList (adjust (select K ρ l) v g)) (e.withList (adjust l v g))
      (adjust l v g) K ρ := by
  refine R.of_served hholds ?_ R.walks_eq R.walkOf_eq ?_ rfl (Int.le_refl _)
  · rw [select_adjust hstart hg]
    rfl
  · exact ⟨R.settings.stateDelay_eq, R.settings.routerAsn_eq, R.settings.enabled_eq⟩

/-- A registration that does not count is changed on the larger engine. -/
theorem adjusted_of_neg (hK : K (v, e.generationAt v) = false) :
    Restricts e' (e.withList (adjust l v g)) (adjust l v g) K ρ := by
  refine R.of_served hholds ?_ R.walks_eq R.walkOf_eq ?_ rfl (Int.le_refl _)
  · rw [select_adjust hstart hg, adjust_of_none (R.at?_eq_none hK), R.registry_eq]
  · exact ⟨R.settings.stateDelay_eq, R.settings.routerAsn_eq, R.settings.enabled_eq⟩

end Adjusted

/-- One edit of a registration that counts is made on both engines. -/
theorem edited (hedit : e.Edited l v now edit e₁) (hedit' : e'.Edited (select K ρ l) v now edit e₁')
    (hK : K (v, e.generationAt v) = true)
    (hholds : ∃ starts, e₁.Holds (edit.apply l v e.nextGeneration now) starts) :
    ∃ ρ', AgreeBelow e.nextGeneration ρ' ρ ∧
      Restricts e₁' e₁ (edit.apply l v e.nextGeneration now) K ρ' := by
  obtain ⟨starts, h⟩ := R.holds
  cases hedit with
  | keep htables hsettings =>
    cases hedit' with
    | keep htables' hsettings' =>
      have hboth := (hsettings'.trans R.settings).trans hsettings.symm
      exact ⟨ρ, .refl _ _, R.of_sameTables hholds htables htables' hboth⟩
  | enroll hv hnone =>
    cases hedit' with
    | enroll =>
      subst hv
      rw [h.generationAt_of_none hnone] at hK
      exact ⟨_, agreeBelow_update _ _ _, R.enrolled hnone hK hholds⟩
  | drop =>
    cases hedit' with
    | drop => exact ⟨ρ, .refl _ _, R.dropped hK hholds⟩
  | configure =>
    cases hedit' with
    | configure => exact ⟨ρ, .refl _ _, R.adjusted (fun _ => rfl) (fun _ => rfl) hholds⟩
  | record =>
    cases hedit' with
    | record => exact ⟨ρ, .refl _ _, R.adjusted (fun _ => rfl) (fun _ => rfl) hholds⟩

/-- An edit of a registration that does not count is made on the larger engine. -/
theorem edited_of_neg (hedit : e.Edited l v now edit e₁) (hK : K (v, e.generationAt v) = false)
    (hholds : ∃ starts, e₁.Holds (edit.apply l v e.nextGeneration now) starts) :
    Restricts e' e₁ (edit.apply l v e.nextGeneration now) K ρ := by
  obtain ⟨starts, h⟩ := R.holds
  cases hedit with
  | keep htables hsettings =>
    exact R.of_sameTables hholds htables (.refl e') (R.settings.trans hsettings.symm)
  | enroll hv hnone =>
    subst hv
    rw [h.generationAt_of_none hnone] at hK
    exact R.enrolled_of_neg hK hnone hholds
  | drop => exact R.dropped_of_neg hK hholds
  | configure => exact R.adjusted_of_neg (fun _ => rfl) (fun _ => rfl) hholds hK
  | record => exact R.adjusted_of_neg (fun _ => rfl) (fun _ => rfl) hholds hK

end Edits

section Turns

variable {i : Nat} {w : Walk} {heeding : Bool} {o : Observers}

/-- A turn changes nothing of what walks serve. -/
theorem served_turn (hw : e.walk? i = some w) (heeding : Bool) (r : Registry) (now : Float)
    (o : Observers) :
    (e.walks.set i (w.turnWith heeding r now o).walk).map Walk.serves = e.served := by
  have hserves := (w.turnWith_continues heeding r now o).serves_eq
  have hsame : e.served[i]? = some (w.turnWith heeding r now o).walk.serves := by
    rw [served, List.getElem?_map, show e.walks[i]? = some w from hw, hserves, Option.map_some]
  rw [List.map_set, ← served, set_of_getElem? hsame]

include R

/-- A walk that counts looks at the same session on both engines. -/
theorem live?_walk (hw : w ∈ e.walks) (hK : K w.serves = true) :
    e'.registry.live? w.address (w.generation.renumbered ρ) =
      e.registry.live? w.address w.generation := by
  obtain ⟨starts, h⟩ := R.holds
  rw [R.registry_eq, h.registry_eq]
  exact R.live?_eq hw hK rfl

/-- A walk that counts finds the registration that it serves on the smaller engine. -/
theorem at?_of_writes (hw : w ∈ e.walks) (hK : K w.serves = true) {s : Session}
    (hs : w.writes? heeding e.registry now = some s) :
    ∃ r, at? (select K ρ l) w.address = some r := by
  obtain ⟨starts, h⟩ := R.holds
  obtain ⟨r, hr, hserves, _⟩ := h.registration_of_writes hw hs
  refine ⟨r.renumbered ρ, ?_⟩
  rw [at?_select R.nodup, hr]
  simp [Option.filter_some, hserves, hK]

/-- A walk that counts looks at the same session on both engines when it has written. -/
theorem live?_written (hw : w ∈ e.walks) (hK : K w.serves = true) {s : Session}
    (hs : w.writes? heeding e.registry now = some s) :
    (e'.registry.setSession w.address s).live? w.address (w.generation.renumbered ρ) =
      (e.registry.setSession w.address s).live? w.address w.generation := by
  obtain ⟨starts, h⟩ := R.holds
  obtain ⟨r, hr, _⟩ := h.registration_of_writes hw hs
  obtain ⟨r', hr'⟩ := R.at?_of_writes hw hK hs
  have hlive := R.live?_eq hw hK (map_start_rewritten l w.address (some s))
  rw [select_rewritten] at hlive
  rw [h.registry_eq, R.registry_eq, Registry.setSession_of_some hr,
    Registry.setSession_of_some hr']
  exact hlive

/-- What a turn leaves behind of the registrations on the smaller engine. -/
theorem registry_turn_renumbered (hw : w ∈ e.walks) (hK : K w.serves = true) (heeding : Bool)
    (now : Float) (o : Observers) :
    ((w.renumbered ρ).turnWith heeding e'.registry now o).registry =
      .ofList (select K ρ (rewritten l w.address (w.writes? heeding e.registry now))) := by
  have haddress : (w.renumbered ρ).address = w.address := rfl
  rw [Walk.turnWith_registry, Walk.writes?_renumbered (R.live?_walk hw hK), R.registry_eq,
    select_rewritten, haddress]
  refine Registry.written_ofList fun hsome => ?_
  obtain ⟨s, hs⟩ := Option.isSome_iff_exists.mp hsome
  exact R.at?_of_writes hw hK hs

/-- A walk that counts takes a turn on both engines, and asks for the same. -/
theorem turned (hw : e.walk? i = some w) (hK : K w.serves = true) (heeding : Bool) (now : Float)
    (o : Observers) (hholds : ∃ l₁ starts, (e.turnOf i now o heeding).1.Holds l₁ starts) :
    (∃ l₁, Restricts (e'.turnOf (rank K e.served i) now o heeding).1
        (e.turnOf i now o heeding).1 l₁ K ρ) ∧
      asked (e'.turnOf (rank K e.served i) now o heeding).2 =
        (asked (e.turnOf i now o heeding).2).map (Effect.renumbered ρ) := by
  obtain ⟨starts, h⟩ := R.holds
  obtain ⟨l₁, starts₁, h₁⟩ := hholds
  have hmem : w ∈ e.walks := List.mem_of_getElem? hw
  have halike := Walk.turnWith_alike (R.live?_walk hmem hK) heeding now o fun s hs =>
    R.live?_written hmem hK hs
  rw [turnOf_of_some hw] at h₁
  have hl₁ := h₁.eq_of_registry (h.registry_turn hmem heeding now o)
  subst hl₁
  rw [turnOf_of_some hw, turnOf_of_some (R.walk?_eq hw hK)]
  refine ⟨⟨_, R.of_served ⟨starts₁, h₁⟩ ?_ ?_ R.walkOf_eq ?_ ?_ (Int.le_refl _)⟩, halike.asked_eq⟩
  · exact R.registry_turn_renumbered hmem hK heeding now o
  · have hserves := (w.turnWith_continues heeding e.registry now o).serves_eq
    rw [Walk.select_set_of_pos hw hK hserves, halike.walk_eq, R.walks_eq]
    rfl
  · exact ⟨R.settings.stateDelay_eq, R.settings.routerAsn_eq, R.settings.enabled_eq⟩
  · exact served_turn hw heeding e.registry now o

/-- A walk that does not count takes a turn on the larger engine. -/
theorem turned_of_neg (hw : e.walk? i = some w) (hK : K w.serves = false) (heeding : Bool)
    (now : Float) (o : Observers)
    (hholds : ∃ l₁ starts, (e.turnOf i now o heeding).1.Holds l₁ starts) :
    ∃ l₁, Restricts e' (e.turnOf i now o heeding).1 l₁ K ρ := by
  obtain ⟨starts, h⟩ := R.holds
  obtain ⟨l₁, starts₁, h₁⟩ := hholds
  have hmem : w ∈ e.walks := List.mem_of_getElem? hw
  rw [turnOf_of_some hw] at h₁
  have hl₁ := h₁.eq_of_registry (h.registry_turn hmem heeding now o)
  subst hl₁
  rw [turnOf_of_some hw]
  refine ⟨_, R.of_served ⟨starts₁, h₁⟩ ?_ ?_ R.walkOf_eq ?_ ?_ (Int.le_refl _)⟩
  · rw [select_rewritten, R.registry_eq]
    cases hs : w.writes? heeding e.registry now with
    | none => rfl
    | some s =>
      obtain ⟨r, hr, hserves, _⟩ := h.registration_of_writes hmem hs
      have hnone : at? (select K ρ l) w.address = none := by
        rw [at?_select R.nodup, hr]
        simp [Option.filter_some, hserves, hK]
      rw [rewritten_of_none hnone]
  · have hserves := (w.turnWith_continues heeding e.registry now o).serves_eq
    rw [Walk.select_set_of_neg hw hK hserves, R.walks_eq]
  · exact ⟨R.settings.stateDelay_eq, R.settings.routerAsn_eq, R.settings.enabled_eq⟩
  · exact served_turn hw heeding e.registry now o

end Turns

include R

/-- Closing is done on both engines. -/
theorem closed (hholds : ∃ l₁ starts, e.close.1.Holds l₁ starts) :
    ∃ l₁, Restricts e'.close.1 e.close.1 l₁ K ρ := by
  obtain ⟨starts, h⟩ := R.holds
  obtain ⟨l₁, starts₁, h₁⟩ := hholds
  have hregistry := (Roster.cancelAll_eq e.toRoster e.walkOf.values).1.trans h.registry_eq
  obtain rfl := h₁.eq_of_registry hregistry
  have hvalues : e'.walkOf.values = (e.walkOf.values.filter fun i => (e.served[i]?).any K).map
      (rank K e.served) := by
    rw [R.walkOf_eq, Table.values_select]
  refine ⟨_, R.of_served ⟨starts₁, h₁⟩ ?_ ?_ rfl ?_ (Roster.serves_cancelAll _ _)
    (Int.le_refl _)⟩
  · exact (Roster.cancelAll_eq _ _).1.trans R.registry_eq
  · rw [close, hvalues]
    exact Roster.select_cancelAll _ rfl R.walks_eq
  · exact ⟨R.settings.stateDelay_eq, R.settings.routerAsn_eq, R.settings.enabled_eq⟩

section Calls

variable {c : Call}

/-- A request for a registration that counts does the same on both engines. -/
theorem requested (hrequest : c.isRequest = true) (hv : c.target? = some v)
    (hK : K (v, e.generationAt v) = true) (now : Float)
    (hholds : ∃ l₁ starts, (c.perform e now).engine.Holds l₁ starts) :
    (∃ ρ' l₁, AgreeBelow e.nextGeneration ρ' ρ ∧
        Restricts (c.perform e' now).engine (c.perform e now).engine l₁ K ρ') ∧
      (c.perform e' now).result = (c.perform e now).result := by
  obtain ⟨starts, h⟩ := R.holds
  obtain ⟨l₁, starts₁, h₁⟩ := hholds
  obtain ⟨out, hout, hfollows⟩ := perform_follows h.registry_eq hrequest hv now
  obtain ⟨out', hout', hfollows'⟩ := perform_follows R.registry_eq hrequest hv now
  rw [R.isOn_eq, R.at?_eq hK, plan_renumbered] at hfollows'
  rw [hout] at h₁ ⊢
  rw [hout']
  have hl₁ := h₁.eq_of_registry (hfollows.edited.registry_eq h.registry_eq)
  subst hl₁
  obtain ⟨ρ', hρ', R'⟩ := R.edited hfollows.edited hfollows'.edited hK ⟨starts₁, h₁⟩
  refine ⟨⟨ρ', _, hρ', R'⟩, ?_⟩
  simp only [Call.changing, hfollows.result_eq, hfollows'.result_eq]

/-- A request for a registration that does not count changes nothing of what counts. -/
theorem requested_of_neg (hrequest : c.isRequest = true) (hv : c.target? = some v)
    (hK : K (v, e.generationAt v) = false) (now : Float)
    (hholds : ∃ l₁ starts, (c.perform e now).engine.Holds l₁ starts) :
    ∃ l₁, Restricts e' (c.perform e now).engine l₁ K ρ := by
  obtain ⟨starts, h⟩ := R.holds
  obtain ⟨l₁, starts₁, h₁⟩ := hholds
  obtain ⟨out, hout, hfollows⟩ := perform_follows h.registry_eq hrequest hv now
  rw [hout] at h₁ ⊢
  have hl₁ := h₁.eq_of_registry (hfollows.edited.registry_eq h.registry_eq)
  subst hl₁
  exact ⟨_, R.edited_of_neg hfollows.edited hK ⟨starts₁, h₁⟩⟩

/-- The fault switch is turned on both engines. -/
theorem setFaults (enabled : Bool)
    (hholds : ∃ l₁ starts, (e.setFaults enabled).engine.Holds l₁ starts) :
    ∃ l₁, Restricts (e'.setFaults enabled).engine (e.setFaults enabled).engine l₁ K ρ := by
  obtain ⟨starts, h⟩ := R.holds
  obtain ⟨l₁, starts₁, h₁⟩ := hholds
  have htables (e : Engine) : (e.setFaults enabled).engine.SameTables e :=
    sameTables_of_not_request (c := .setFaults enabled) rfl e 0.0
  have hl₁ := h₁.eq_of_registry ((htables e).registry_eq.trans h.registry_eq)
  subst hl₁
  refine ⟨_, R.of_sameTables ⟨starts₁, h₁⟩ (htables e) (htables e') ?_⟩
  cases enabled <;> exact ⟨R.settings.stateDelay_eq, R.settings.routerAsn_eq, rfl⟩

end Calls

section Reads

/-- The peer at an address that counts is read alike. -/
theorem getPeer_eq (hK : K (v, e.generationAt v) = true) :
    e'.registry.getPeer v = e.registry.getPeer v := by
  obtain ⟨starts, h⟩ := R.holds
  rw [R.registry_eq, h.registry_eq]
  exact require_column_renumbered (fun _ => rfl) (R.at?_eq hK) _

/-- The session at an address that counts is read alike. -/
theorem getSession_eq (hK : K (v, e.generationAt v) = true) :
    e'.registry.getSession v = e.registry.getSession v := by
  obtain ⟨starts, h⟩ := R.holds
  rw [R.registry_eq, h.registry_eq]
  exact require_column_renumbered (fun _ => rfl) (R.at?_eq hK) _

/-- The walk at an address that counts is found on both engines. -/
theorem walkAt?_eq (hK : K (v, e.generationAt v) = true) :
    e'.walkAt? v = (e.walkAt? v).map (Walk.renumbered ρ) := by
  rw [walkAt?, walkAt?, R.walkNumber?_eq hK]
  cases hi : e.walkNumber? v with
  | none => rfl
  | some i =>
    obtain ⟨w, hw, hKw⟩ := Walk.exists_of_any_serves (R.any_walkNumber? hK hi)
    have hw' : e.walk? i = some w := hw
    simp only [Option.map_some, Option.bind_some, R.walk?_eq hw' hKw, hw']

/-- Reads of what counts are answered alike. -/
theorem read_answered {c : Call} (hc : c.isRequest = false) (hv : c.target? = some v)
    (hK : K (v, e.generationAt v) = true) (now : Float) :
    (c.perform e' now).result = (c.perform e now).result.map (Answer.renumbered ρ) := by
  cases c with
  | session u =>
    obtain rfl : u = v := Option.some.inj hv
    simp only [Call.perform, Call.reading, getSession, R.getSession_eq hK]
    cases e.registry.getSession u with
    | error f => rfl
    | ok s =>
      simp only
      cases s.snapshot now <;> rfl
  | peer u =>
    obtain rfl : u = v := Option.some.inj hv
    simp only [Call.perform, Call.reading, getPeer, R.getPeer_eq hK]
    cases e.registry.getPeer u <;> rfl
  | walk u =>
    obtain rfl : u = v := Option.some.inj hv
    simp only [Call.perform, Call.reading, getWalk, R.walkAt?_eq hK]
    cases u.isKey <;> rfl
  | addPeer | updatePeer | removePeer | setSessionError | incrementCounters => cases hc
  | setFaults | sessions | peers | counts | runningConfig | statistics | faults | describe =>
    cases hv

section All

variable (hall : ∀ r ∈ l, K r.start.values = true)

include hall

/-- If all registrations count, both engines have them all. -/
theorem registry_eq_of_all : e'.registry = .ofList (l.map (renumbered ρ)) := by
  have hfilter : l.filter (fun r => K r.start.values) = l := List.filter_eq_self.mpr hall
  rw [R.registry_eq, select, hfilter]

/-- The configurations are the same on both. -/
theorem peerOf_eq : e'.registry.peerOf = e.registry.peerOf := by
  obtain ⟨starts, h⟩ := R.holds
  rw [R.registry_eq_of_all hall, h.registry_eq]
  exact column_map_renumbered (fun _ => rfl) l

/-- The sessions are the same on both. -/
theorem sessionOf_eq : e'.registry.sessionOf = e.registry.sessionOf := by
  obtain ⟨starts, h⟩ := R.holds
  rw [R.registry_eq_of_all hall, h.registry_eq]
  exact column_map_renumbered (fun _ => rfl) l

/-- If all registrations count, all walks that are found by an address do. -/
theorem activeWalks_eq : e'.activeWalks = e.activeWalks := by
  obtain ⟨starts, h⟩ := R.holds
  have hserved (i : Nat) (hi : i ∈ e.walkOf.values) : (e.served[i]?).any K = true := by
    obtain ⟨entry, hentry, rfl⟩ := List.mem_map.mp hi
    exact h.any_served hall hentry
  have hrunning (i : Nat) (hi : i ∈ e.walkOf.values) :
      e'.isRunning (rank K e.served i) = e.isRunning i := by
    obtain ⟨w, hw, hK⟩ := Walk.exists_of_any_serves (hserved i hi)
    have hw' : e.walk? i = some w := hw
    rw [Roster.isRunning, Roster.isRunning, hw', R.walk?_eq hw' hK]
    rfl
  have hvalues : e'.walkOf.values = e.walkOf.values.map (rank K e.served) := by
    rw [R.walkOf_eq, Table.values_select, List.filter_eq_self.mpr hserved]
  rw [activeWalks, activeWalks, hvalues, List.filter_map, List.length_map]
  congr 1
  exact List.filter_congr hrunning

/-- If all registrations count, reads of all of them are answered alike. The failures that the fault
switch has caused are not among what is compared. -/
theorem overview_answered {c : Call} (hv : c.target? = none) (hfaults : c ≠ .faults) (now : Float) :
    (c.perform e' now).result = (c.perform e now).result := by
  have hpeers := R.peerOf_eq hall
  have hsessions := R.sessionOf_eq hall
  cases c with
  | setFaults enabled => cases enabled <;> rfl
  | sessions =>
    simp only [Call.perform, Call.reading, getAllSessions, Registry.snapshotSessions,
      Registry.sessions, hsessions]
    split <;> rfl
  | peers => simp only [Call.perform, Call.reading, getAllPeers, Registry.peers, hpeers]
  | counts =>
    simp only [Call.perform, Call.reading, peerCount, Registry.size, establishedCount,
      Registry.countEstablished, Registry.sessions, hpeers, hsessions]
  | runningConfig =>
    simp only [Call.perform, Call.reading, runningConfig, Registry.peers, hpeers,
      R.settings.routerAsn_eq]
  | statistics =>
    simp only [Call.perform, Call.reading, statistics, peerCount, Registry.size, establishedCount,
      Registry.countEstablished, Registry.countByState, Registry.sessions, hpeers, hsessions,
      R.activeWalks_eq hall, R.settings.enabled_eq, R.settings.stateDelay_eq]
  | describe =>
    have hsize : e'.registry.size = e.registry.size := congrArg List.length hpeers
    have hdescribe : e'.describe = e.describe := by
      unfold describe
      rw [R.settings.routerAsn_eq, R.settings.stateDelay_eq, R.settings.enabled_eq, hsize]
    simp only [Call.perform, Call.reading, hdescribe]
  | faults => exact absurd rfl hfaults
  | addPeer | updatePeer | removePeer | setSessionError | incrementCounters | session | peer
  | walk => cases hv

end All

end Reads

end Restricts

end Engine

end Peering
