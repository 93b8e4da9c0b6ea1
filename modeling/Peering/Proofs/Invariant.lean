import Peering.Proofs.Steps

/-!
# What holds throughout a run

Behind the tables of an engine that is reached stands one list of registrations, and behind its
walks one list of all registrations that it ever made. The first is a sublist of the second,
and the generations of the second increase. This file shows that every moment keeps this up.
-/

namespace Peering

open Registration

/-- A registration that was made once: its address and its generation. -/
structure Start where
  /-- The address. -/
  address : String
  /-- The generation. -/
  generation : Int

/-- The address and the generation as values. -/
def Start.values (s : Start) : Value × Value := (.text s.address, .int s.generation)

/-- The address and the generation of the registration that a walk was started for. -/
def Walk.serves (w : Walk) : Value × Value := (w.address, w.generation)

/-- How a registration was made. -/
def Registration.start (r : Registration) : Start := ⟨r.address, r.generation⟩

/-- Changing a peer or a session changes no start. -/
theorem Registration.map_start_adjust {l : List Registration} {v : Value}
    {g : Registration → Registration} (hstart : ∀ r, (g r).start = r.start) :
    (adjust l v g).map Registration.start = l.map Registration.start := by
  simp only [adjust, List.map_map]
  apply List.map_congr_left
  intro r _
  by_cases hr : matchesAt v r = true <;> simp [hr, hstart]

/-- What all registrations have and a change keeps, all have after the change. -/
theorem Registration.forall_mem_adjust {P : Registration → Prop} {l : List Registration}
    {v : Value} {g : Registration → Registration} (hl : ∀ r ∈ l, P r)
    (hg : ∀ r ∈ l, matchesAt v r = true → P (g r)) : ∀ r ∈ adjust l v g, P r := by
  intro r hr
  obtain ⟨s, hs, rfl⟩ := List.mem_map.mp hr
  by_cases hv : matchesAt v s = true
  · rw [if_pos hv]
    exact hg s hs hv
  · rw [if_neg hv]
    exact hl s hs

/-- Two lists with the same tables are the same. -/
theorem Registry.ofList_injective {l l' : List Registration}
    (h : Registry.ofList l = Registry.ofList l') : l = l' := by
  simp only [ofList, Registry.mk.injEq] at h
  obtain ⟨hpeers, hsessions, hgenerations⟩ := h
  induction l generalizing l' with
  | nil => cases l' with
    | nil => rfl
    | cons r l' => simp [column] at hpeers
  | cons r l ih => cases l' with
    | nil => simp [column] at hpeers
    | cons r' l' =>
      simp only [column, List.map_cons, List.cons.injEq, Prod.mk.injEq, Value.text.injEq,
        Value.int.injEq] at hpeers hsessions hgenerations
      obtain ⟨⟨haddress, hpeer⟩, hpeers⟩ := hpeers
      obtain ⟨⟨_, hsession⟩, hsessions⟩ := hsessions
      obtain ⟨⟨_, hgeneration⟩, hgenerations⟩ := hgenerations
      have hr : r = r' := by
        cases r
        cases r'
        simp_all
      rw [hr, ih hpeers hsessions hgenerations]

/-- Moving a session keeps its address. -/
theorem Session.address_advance (s : Session) (now : Float) :
    (s.advance now).1.address = s.address := by
  have henter (state : State) : (s.enter state now).address = s.address := by
    unfold enter
    split <;> rfl
  unfold advance
  split
  · rfl
  · rfl
  · rename_i state _
    split
    · exact (sameCourse_count _ _ _).address_eq.trans (henter state)
    · exact henter state

namespace Engine

/-- The engine has a list of registrations, and has made those of another list so far. -/
structure Holds (e : Engine) (l : List Registration) (starts : List Start) : Prop where
  /-- The tables are those of the list. -/
  registry_eq : e.registry = .ofList l
  /-- Every registration was made, in this order. -/
  sublist : (l.map Registration.start).Sublist starts
  /-- No address is registered twice. -/
  nodup : ((l.map Registration.start).map Start.address).Nodup
  /-- Each peer has the address that it is registered under. -/
  peer_address : ∀ r ∈ l, r.peer.address = .text r.address
  /-- Each session has the address that it is registered under. -/
  session_address : ∀ r ∈ l, r.session.address = .text r.address
  /-- Generations were given out in increasing order. -/
  increasing : starts.Pairwise fun s t => s.generation < t.generation
  /-- The next generation has not been given out. -/
  fresh : ∀ s ∈ starts, s.generation < e.nextGeneration
  /-- Each registration had a walk started for it. -/
  walks_eq : e.walks.map Walk.serves = starts.map Start.values
  /-- No suspended observer stands before that of state changes. -/
  told : ∀ w ∈ e.walks, w.HasToldChange
  /-- The addresses with a walk are the last ones registered. -/
  keys_suffix : e.walkOf.keys <:+ (l.map Registration.start).map fun s => .text s.address
  /-- The walk of an address serves the live registration. -/
  walkOf_live : ∀ entry ∈ e.walkOf, ∃ s ∈ l.map Registration.start,
    entry.1 = .text s.address ∧ starts[entry.2]? = some s

variable {e : Engine} {l l' : List Registration} {starts : List Start} {m : Moment}

/-- A new engine has no registrations. -/
theorem IsNew.holds (he : e.IsNew) : e.Holds [] [] := by
  obtain ⟨hregistry, hwalks, hwalkOf, _⟩ := he
  constructor
  case registry_eq => exact hregistry
  case walks_eq => simp [hwalks]
  case told => simp [hwalks]
  case keys_suffix => simp [hwalkOf, Table.keys]
  case walkOf_live => simp [hwalkOf]
  all_goals simp

namespace Holds

/-- The tables of an engine are those of one list only. -/
theorem eq_of_registry (h : e.Holds l starts) (he : e.registry = .ofList l') : l = l' := by
  have htables : Registry.ofList l = Registry.ofList l' := h.registry_eq.symm.trans he
  exact Registry.ofList_injective htables

/-- A walk serves a registration that was made when the walk was. -/
theorem start_of_walk (h : e.Holds l starts) {i : Nat} {w : Walk} (hw : e.walk? i = some w) :
    ∃ s, starts[i]? = some s ∧ w.address = .text s.address ∧ w.generation = .int s.generation := by
  have hserves : (e.walks.map Walk.serves)[i]? = some w.serves := by
    rw [List.getElem?_map, show e.walks[i]? = some w from hw]
    rfl
  rw [h.walks_eq, List.getElem?_map] at hserves
  obtain ⟨s, hs, hvalues⟩ := Option.map_eq_some_iff.mp hserves
  obtain ⟨haddress, hgeneration⟩ := Prod.mk.inj hvalues
  exact ⟨s, hs, haddress.symm, hgeneration.symm⟩

/-- A registration that was made has a walk. -/
theorem walk_of_start (h : e.Holds l starts) {i : Nat} {s : Start} (hs : starts[i]? = some s) :
    ∃ w, e.walk? i = some w ∧ w.address = .text s.address ∧ w.generation = .int s.generation := by
  have hvalues : (starts.map Start.values)[i]? = some s.values := by
    rw [List.getElem?_map, hs]
    rfl
  rw [← h.walks_eq, List.getElem?_map] at hvalues
  obtain ⟨w, hw, hserves⟩ := Option.map_eq_some_iff.mp hvalues
  obtain ⟨haddress, hgeneration⟩ := Prod.mk.inj hserves
  exact ⟨w, hw, haddress, hgeneration⟩

/-- Every moment is of one of the kinds. -/
theorem exists_step (h : e.Holds l starts) (m : Moment) : ∃ l', e.Step l m l' := by
  refine Engine.exists_step h.registry_eq (fun w hw => ?_) m
  obtain ⟨i, hi⟩ := List.mem_iff_getElem?.mp hw
  obtain ⟨s, _, haddress, hgeneration⟩ := h.start_of_walk hi
  exact ⟨⟨s.address, s.generation, haddress, hgeneration⟩, h.told w hw⟩

/-- Where nothing changes, everything goes on to hold. -/
theorem of_sameTables (h : e.Holds l starts) {e' : Engine} (he' : e'.SameTables e) :
    e'.Holds l starts where
  registry_eq := he'.registry_eq.trans h.registry_eq
  sublist := h.sublist
  nodup := h.nodup
  peer_address := h.peer_address
  session_address := h.session_address
  increasing := h.increasing
  fresh := fun s hs => Int.lt_of_lt_of_le (h.fresh s hs) he'.next_le
  walks_eq := he'.walks_eq ▸ h.walks_eq
  told := he'.walks_eq ▸ h.told
  keys_suffix := he'.walkOf_eq ▸ h.keys_suffix
  walkOf_live := he'.walkOf_eq ▸ h.walkOf_live

/-- The address that no registration has is not among those that a walk is found by. -/
private theorem not_mem_addresses {a : String} (hnew : at? l (.text a) = none) :
    a ∉ (l.map Registration.start).map Start.address := by
  intro hmem
  obtain ⟨s, hs, rfl⟩ := List.mem_map.mp hmem
  obtain ⟨r, hr, rfl⟩ := List.mem_map.mp hs
  exact at?_eq_none.mp hnew r hr rfl

/-- No walk is found by an address that is not registered. -/
theorem contains_walkOf (h : e.Holds l starts) {a : String} (hnew : at? l (.text a) = none) :
    e.walkOf.contains (.text a) = false := by
  rw [Bool.eq_false_iff]
  intro hcontains
  obtain ⟨entry, hentry, hkey⟩ := List.any_eq_true.mp hcontains
  obtain ⟨s, hs, hs', _⟩ := h.walkOf_live entry hentry
  rw [hs', Value.text_eqv_text, beq_iff_eq] at hkey
  exact not_mem_addresses hnew (hkey ▸ List.mem_map_of_mem hs)

/-- The number of a walk that is started comes in at the end. -/
theorem set_walkOf (h : e.Holds l starts) {a : String} (hnew : at? l (.text a) = none)
    (i : Nat) : e.walkOf.set (.text a) i = e.walkOf ++ [(.text a, i)] := by
  simp [Table.set, h.contains_walkOf hnew]

/-- A registration is added at the end, and so is its walk. -/
private theorem added (h : e.Holds l starts) {p : Peer} {a : String} {now : Float}
    (haddress : p.address = .text a) (hnew : at? l (.text a) = none) :
    (e.enrolled l a p now).Holds (l ++ [Registration.initial a p e.nextGeneration now])
      (starts ++ [⟨a, e.nextGeneration⟩]) := by
  have hlength : e.walks.length = starts.length := by
    simpa using congrArg List.length h.walks_eq
  have hstart : (l ++ [Registration.initial a p e.nextGeneration now]).map Registration.start =
      l.map Registration.start ++ [⟨a, e.nextGeneration⟩] := by
    simp [Registration.start, Registration.initial]
  constructor
  case registry_eq => rfl
  case sublist =>
    rw [hstart]
    exact h.sublist.append (List.Sublist.refl _)
  case nodup =>
    rw [hstart, List.map_append, List.nodup_append]
    refine ⟨h.nodup, by simp, ?_⟩
    intro b hb c hc heq
    obtain rfl : c = a := by simpa using hc
    exact not_mem_addresses hnew (heq ▸ hb)
  case peer_address =>
    intro r hr
    rcases List.mem_append.mp hr with hr | hr
    · exact h.peer_address r hr
    · obtain rfl := List.mem_singleton.mp hr
      exact haddress
  case session_address =>
    intro r hr
    rcases List.mem_append.mp hr with hr | hr
    · exact h.session_address r hr
    · obtain rfl := List.mem_singleton.mp hr
      rfl
  case increasing =>
    rw [List.pairwise_append]
    refine ⟨h.increasing, by simp, ?_⟩
    intro s hs t ht
    obtain rfl := List.mem_singleton.mp ht
    exact h.fresh s hs
  case fresh =>
    intro s hs
    simp only [enrolled, spent]
    rcases List.mem_append.mp hs with hs | hs
    · have := h.fresh s hs
      omega
    · obtain rfl := List.mem_singleton.mp hs
      simp only
      omega
  case walks_eq =>
    simp only [enrolled, List.map_append, h.walks_eq]
    rfl
  case told =>
    intro w hw
    rcases List.mem_append.mp hw with hw | hw
    · exact h.told w hw
    · obtain rfl := List.mem_singleton.mp hw
      intro rest n hphase
      cases hphase
  case keys_suffix =>
    simp only [enrolled, hstart, h.set_walkOf hnew, Table.keys, List.map_append]
    obtain ⟨before, hbefore⟩ := h.keys_suffix
    exact ⟨before, by rw [← hbefore, List.append_assoc]; rfl⟩
  case walkOf_live =>
    simp only [enrolled, hstart, h.set_walkOf hnew]
    intro entry hentry
    rcases List.mem_append.mp hentry with hentry | hentry
    · obtain ⟨s, hs, hkey, hi⟩ := h.walkOf_live entry hentry
      refine ⟨s, List.mem_append_left _ hs, hkey, ?_⟩
      rw [List.getElem?_append_left (List.getElem?_eq_some_iff.mp hi).1]
      exact hi
    · obtain rfl := List.mem_singleton.mp hentry
      exact ⟨⟨a, e.nextGeneration⟩, by simp, rfl, by simp [hlength]⟩

/-- Requests for cancellations change neither what walks serve nor what they have told. -/
private theorem walks_of_unstopped (h : e.Holds l starts) {walks : List Walk}
    (hwalks : walks.map Walk.unstopped = e.walks.map Walk.unstopped) :
    walks.map Walk.serves = starts.map Start.values ∧ ∀ w ∈ walks, w.HasToldChange := by
  constructor
  · have hserves (walks : List Walk) :
        (walks.map Walk.unstopped).map Walk.serves = walks.map Walk.serves := by
      rw [List.map_map]
      rfl
    rw [← h.walks_eq, ← hserves walks, hwalks, hserves]
  · intro w hw
    have hmem : w.unstopped ∈ e.walks.map Walk.unstopped := hwalks ▸ List.mem_map_of_mem hw
    obtain ⟨w', hw', heq⟩ := List.mem_map.mp hmem
    intro rest n hphase
    have hphase' : w'.unstopped.phase = .observing rest n := heq ▸ hphase
    exact h.told w' hw' rest n hphase'

/-- A registration is taken out, and its walk is not found any more. -/
private theorem removed (h : e.Holds l starts) {e' : Engine} {v : Value}
    (hregistry : e'.registry = .ofList (without l v))
    (hwalks : e'.walks.map Walk.unstopped = e.walks.map Walk.unstopped)
    (hwalkOf : e'.walkOf = e.walkOf.erase v) (hnext : e'.nextGeneration = e.nextGeneration) :
    e'.Holds (without l v) starts := by
  obtain ⟨hserves, htold⟩ := h.walks_of_unstopped hwalks
  have hsub : (without l v).Sublist l := List.filter_sublist
  have hstart : (without l v).map Registration.start =
      (l.map Registration.start).filter fun s => !(Value.text s.address).eqv v := by
    simp only [without, List.filter_map]
    rfl
  constructor
  case registry_eq => exact hregistry
  case sublist => exact (hsub.map _).trans h.sublist
  case nodup => exact h.nodup.sublist ((hsub.map _).map _)
  case peer_address => exact fun r hr => h.peer_address r (hsub.subset hr)
  case session_address => exact fun r hr => h.session_address r (hsub.subset hr)
  case increasing => exact h.increasing
  case fresh => exact fun s hs => hnext ▸ h.fresh s hs
  case walks_eq => exact hserves
  case told => exact htold
  case keys_suffix =>
    have hkeys : (e.walkOf.erase v).keys = e.walkOf.keys.filter fun k => !k.eqv v := by
      simp only [Table.erase, Table.keys, List.filter_map]
      rfl
    have hmap : ((l.map Registration.start).filter fun s => !(Value.text s.address).eqv v).map
          (fun s => Value.text s.address) =
        ((l.map Registration.start).map fun s => Value.text s.address).filter
          fun k => !k.eqv v := by
      simp only [List.filter_map, Function.comp_def]
    rw [hwalkOf, hkeys, hstart, hmap]
    exact h.keys_suffix.filter _
  case walkOf_live =>
    rw [hwalkOf, hstart]
    intro entry hentry
    obtain ⟨hmem, hkey⟩ := List.mem_filter.mp hentry
    obtain ⟨s, hs, haddress, hi⟩ := h.walkOf_live entry hmem
    exact ⟨s, List.mem_filter.mpr ⟨hs, haddress ▸ hkey⟩, haddress, hi⟩

/-- A peer or a session is written under its own address. -/
private theorem withList_adjust (h : e.Holds l starts) {v : Value}
    {g : Registration → Registration} (hstart : ∀ r, (g r).start = r.start)
    (hpeer : ∀ r ∈ l, matchesAt v r = true → (g r).peer.address = .text r.address)
    (hsession : ∀ r ∈ l, matchesAt v r = true → (g r).session.address = .text r.address) :
    (e.withList (adjust l v g)).Holds (adjust l v g) starts := by
  have haddress (r : Registration) : (g r).address = r.address :=
    congrArg Start.address (hstart r)
  have hmap := map_start_adjust (l := l) (v := v) hstart
  constructor
  case registry_eq => rfl
  case sublist => exact hmap ▸ h.sublist
  case nodup => exact hmap ▸ h.nodup
  case peer_address =>
    refine forall_mem_adjust h.peer_address fun r hr hv => ?_
    rw [haddress]
    exact hpeer r hr hv
  case session_address =>
    refine forall_mem_adjust h.session_address fun r hr hv => ?_
    rw [haddress]
    exact hsession r hr hv
  case increasing => exact h.increasing
  case fresh => exact h.fresh
  case walks_eq => exact h.walks_eq
  case told => exact h.told
  case keys_suffix => exact hmap ▸ h.keys_suffix
  case walkOf_live => exact hmap ▸ h.walkOf_live

/-- A walk goes on. -/
private theorem set_walk (h : e.Holds l starts) {i : Nat} {w w' : Walk}
    (hw : e.walk? i = some w) (hcontinues : w'.Continues w) (htold : w'.HasToldChange) :
    ({ e with walks := e.walks.set i w' } : Engine).Holds l starts := by
  constructor
  case walks_eq =>
    have hserves : (e.walks.map Walk.serves)[i]? = some w'.serves := by
      rw [List.getElem?_map, show e.walks[i]? = some w from hw]
      simp [Walk.serves, hcontinues.address_eq, hcontinues.generation_eq]
    rw [← h.walks_eq, List.map_set, set_of_getElem? hserves]
  case told =>
    intro u hu
    rcases List.mem_or_eq_of_mem_set hu with hu | rfl
    · exact h.told u hu
    · exact htold
  case registry_eq => exact h.registry_eq
  case sublist => exact h.sublist
  case nodup => exact h.nodup
  case peer_address => exact h.peer_address
  case session_address => exact h.session_address
  case increasing => exact h.increasing
  case fresh => exact h.fresh
  case keys_suffix => exact h.keys_suffix
  case walkOf_live => exact h.walkOf_live

/-- All walks are forgotten. -/
private theorem closed (h : e.Holds l starts) {e' : Engine} (hregistry : e'.registry = e.registry)
    (hwalks : e'.walks.map Walk.unstopped = e.walks.map Walk.unstopped)
    (hwalkOf : e'.walkOf = []) (hnext : e'.nextGeneration = e.nextGeneration) :
    e'.Holds l starts := by
  obtain ⟨hserves, htold⟩ := h.walks_of_unstopped hwalks
  constructor
  case registry_eq => exact hregistry.trans h.registry_eq
  case sublist => exact h.sublist
  case nodup => exact h.nodup
  case peer_address => exact h.peer_address
  case session_address => exact h.session_address
  case increasing => exact h.increasing
  case fresh => exact fun s hs => hnext ▸ h.fresh s hs
  case walks_eq => exact hserves
  case told => exact htold
  case keys_suffix => simp [hwalkOf, Table.keys]
  case walkOf_live => simp [hwalkOf]

/-- A moment keeps up what holds, and registrations that were made are not forgotten. -/
theorem step (h : e.Holds l starts) (hstep : e.Step l m l') :
    ∃ starts', starts <+: starts' ∧ (e.after m).Holds l' starts' := by
  cases hstep with
  | idle htables _ _ => exact ⟨starts, List.prefix_rfl, h.of_sameTables htables⟩
  | added _ _ hvalid hnew _ hafter =>
    rw [hafter]
    exact ⟨_, List.prefix_append _ _, h.added (Peer.address_of_validate hvalid) hnew⟩
  | removed _ _ _ hregistry hwalks hwalkOf hnext =>
    exact ⟨starts, List.prefix_rfl, h.removed hregistry hwalks hwalkOf hnext⟩
  | updated _ _ hr _ hafter =>
    refine ⟨starts, List.prefix_rfl, ?_⟩
    rw [hafter]
    refine h.withList_adjust (fun _ => rfl) (fun r _ hv => ?_) fun r hr _ => h.session_address r hr
    exact matchesAt_iff.mp hv
  | noted _ _ _ hr hsame hafter =>
    refine ⟨starts, List.prefix_rfl, ?_⟩
    rw [hafter]
    refine h.withList_adjust (fun _ => rfl) (fun r hr _ => h.peer_address r hr) fun r _ hv => ?_
    obtain ⟨hmem, hv'⟩ := mem_of_at? hr
    rw [hsame.address_eq, h.session_address _ hmem, ← hv', matchesAt_iff.mp hv]
  | quiet _ hw hcontinues htold hafter _ =>
    refine ⟨starts, List.prefix_rfl, ?_⟩
    rw [hafter]
    exact h.set_walk hw hcontinues htold
  | @moved i o heeding w w' r _ hw hr _ hcontinues htold hafter _ =>
    refine ⟨starts, List.prefix_rfl, ?_⟩
    rw [hafter]
    have hsession (s : Registration) (hv : matchesAt w.address s = true) :
        (r.session.advance m.now).1.address = .text s.address := by
      obtain ⟨hmem, hv'⟩ := mem_of_at? hr
      rw [Session.address_advance, h.session_address _ hmem, ← hv', matchesAt_iff.mp hv]
    have hwritten := h.withList_adjust
      (g := fun s => { s with session := (r.session.advance m.now).1 }) (fun _ => rfl)
      (fun r hr _ => h.peer_address r hr) fun s _ hv => hsession s hv
    exact hwritten.set_walk hw hcontinues htold
  | closed _ hregistry hwalks hwalkOf hnext =>
    exact ⟨starts, List.prefix_rfl, h.closed hregistry hwalks hwalkOf hnext⟩

/-- Every moment is of one of the kinds and keeps up what holds. -/
theorem exists_after (h : e.Holds l starts) (m : Moment) :
    ∃ l' starts', e.Step l m l' ∧ starts <+: starts' ∧ (e.after m).Holds l' starts' := by
  obtain ⟨l', hstep⟩ := h.exists_step m
  obtain ⟨starts', hgrows, h'⟩ := h.step hstep
  exact ⟨l', starts', hstep, hgrows, h'⟩

/-- What a moment makes of the registrations is of one of the kinds. -/
theorem step_to {l' : List Registration} {starts' : List Start} (h : e.Holds l starts)
    (h' : (e.after m).Holds l' starts') : e.Step l m l' := by
  obtain ⟨l'', _, hstep, _, h''⟩ := h.exists_after m
  obtain rfl := h'.eq_of_registry h''.registry_eq
  exact hstep

end Holds

/-- It holds of every engine that is reached. -/
theorem Reachable.exists_holds (he : e.Reachable) : ∃ l starts, e.Holds l starts := by
  refine Reachable.induction (P := fun e => ∃ l starts, e.Holds l starts)
    (fun e he => ⟨[], [], he.holds⟩) (fun e m ⟨l, starts, h⟩ => ?_) he
  obtain ⟨l', starts', _, _, h'⟩ := h.exists_after m
  exact ⟨l', starts', h'⟩

end Engine

end Peering
