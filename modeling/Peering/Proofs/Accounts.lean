import Peering.Proofs.Likeness
import Peering.Proofs.Refinement
import Mathlib.Algebra.Ring.Int.Defs
import Mathlib.Data.List.Induction

/-!
# The accounts of a session

The counters of a session are written on two ways: callers add to the message counters, and its walk
adds to them when it enters `established`, where it also sets the prefixes. This file shows that
neither gets lost or is counted twice, however both meet: the counters are what callers have added
since the address was added, and what being established adds. The last error is the last one noted.
-/

namespace Peering

open Registration

namespace Session

/-- The counters are the sums of increments, with what being established adds, and the last error is
the last of some remarks. -/
structure Accounts (s : Session) (increments : List (Int × Int)) (remarks : List Value) : Prop where
  received_eq : s.messagesReceived =
    .int ((increments.map Prod.fst).sum + if s.isEstablished then 1000 else 0)
  sent_eq : s.messagesSent =
    .int ((increments.map Prod.snd).sum + if s.isEstablished then 900 else 0)
  prefixesReceived_eq : s.prefixesReceived = .int (if s.isEstablished then 100 else 0)
  prefixesSent_eq : s.prefixesSent = .int (if s.isEstablished then 50 else 0)
  lastError_eq : s.lastError = remarks.getLastD (.text "")

/-- What becomes of a session at a moment, with the increments and the remarks that are entered. -/
inductive Posts (s : Session) (now : Float) : List (Int × Int) → List Value → Session → Prop where
  /-- Nothing is entered. -/
  | nothing : Posts s now [] [] s
  /-- Messages are counted. -/
  | count (i j : Int) : Posts s now [(i, j)] [] (s.count (.int i) (.int j)).1
  /-- An error is noted. -/
  | remark (message : Value) : Posts s now [] [message] { s with lastError := message }
  /-- The walk moves the session. -/
  | advance : Posts s now [] [] (s.advance now).1

variable {s s' : Session} {now : Float} {increments entered : List (Int × Int)}
  {remarks noted : List Value}

/-- A new session has its accounts in order before anything is counted. -/
theorem accounts_initial (address : Value) (now : Float) : (initial address now).Accounts [] [] :=
  ⟨rfl, rfl, rfl, rfl, rfl⟩

/-- A session that can move on is not established. -/
theorem isEstablished_of_next? {state : State} (h : s.next? = .ok (some state)) :
    s.isEstablished = false := by
  unfold next? at h
  split at h
  · rename_i current hcurrent
    have hcurrent' : current ≠ .established := by
      rintro rfl
      cases Except.ok.inj h
    rw [isEstablished, StateCode.same, beq_eq_false_iff_ne]
    -- no other code has the number of the last state
    intro hnumber
    apply hcurrent'
    cases hs : s.state with
    | state t =>
      rw [hs] at hcurrent hnumber
      obtain rfl : t = current := Option.some.inj hcurrent
      cases t <;> first | rfl | cases hnumber
    | bare n =>
      rw [hs] at hcurrent hnumber
      obtain rfl : n = 5 := hnumber
      exact (Option.some.inj hcurrent).symm
  · cases h

/-- A session that enters a state is established exactly in the last one. -/
@[simp] theorem isEstablished_enter (s : Session) (state : State) (now : Float) :
    (s.enter state now).isEstablished = decide (state = .established) := by
  rw [isEstablished, state_enter]
  cases state <;> rfl

/-- Moving a session keeps its accounts. -/
theorem Accounts.advance (h : s.Accounts increments remarks) (now : Float) :
    (s.advance now).1.Accounts increments remarks := by
  unfold Session.advance
  split
  · exact h
  · exact h
  rename_i state hnext
  have hbefore := isEstablished_of_next? hnext
  obtain ⟨hreceived, hsent, hprefixesReceived, hprefixesSent, herror⟩ := h
  simp only [hbefore, Bool.false_eq_true, if_false, Int.add_zero] at *
  have hentered := s.isEstablished_enter state now
  by_cases hstate : state = .established
  · subst hstate
    have hreceived' : (s.enter .established now).messagesReceived = _ := hreceived
    have hsent' : (s.enter .established now).messagesSent = _ := hsent
    rw [if_pos rfl]
    simp only [count_integers hreceived' hsent']
    exact ⟨rfl, rfl, rfl, rfl, herror⟩
  · have henter : s.enter state now = { s with
        state := .state state
        changedAt := s.entryTime now
        history := s.history ++ [(.state state, s.entryTime now)] } := if_neg hstate
    have hafter : (s.enter state now).isEstablished = false := by simp [hstate]
    rw [if_neg hstate]
    constructor
    all_goals
      simp only [hafter, Bool.false_eq_true, if_false, Int.add_zero]
      rw [henter]
      assumption

/-- What happens to a session at a moment is entered in its accounts. -/
theorem Accounts.posts (h : s.Accounts increments remarks) (hposts : s.Posts now entered noted s') :
    s'.Accounts (increments ++ entered) (remarks ++ noted) := by
  cases hposts with
  | nothing => simpa using h
  | advance => simpa using h.advance now
  | remark message =>
    obtain ⟨hreceived, hsent, hprefixesReceived, hprefixesSent, _⟩ := h
    rw [List.append_nil]
    exact ⟨hreceived, hsent, hprefixesReceived, hprefixesSent, by simp⟩
  | count i j =>
    obtain ⟨hreceived, hsent, hprefixesReceived, hprefixesSent, herror⟩ := h
    rw [List.append_nil, count_integers hreceived hsent]
    have hsum (l : List Int) (k x : Int) : l.sum + x + k = (l ++ [k]).sum + x := by
      rw [List.sum_append, List.sum_singleton]
      omega
    refine ⟨?_, ?_, hprefixesReceived, hprefixesSent, herror⟩
    · rw [List.map_append]
      exact congrArg Value.int (hsum _ i _)
    · rw [List.map_append]
      exact congrArg Value.int (hsum _ j _)

end Session

namespace Engine

/-- The increments that are counted at a moment in the session at an address: those of a request
that is done. -/
def incrementsAt (a : Value) (e : Engine) (m : Moment) : List (Int × Int) :=
  match m.move with
  | .call (.incrementCounters v (.int i) (.int j)) =>
    if a.eqv v && (e.meet m).result.isOk then [(i, j)] else []
  | _ => []

/-- The error that is noted at a moment in the session at an address, by a request that is done. -/
def remarksAt (a : Value) (e : Engine) (m : Moment) : List Value :=
  match m.move with
  | .call (.setSessionError v message) =>
    if a.eqv v && (e.meet m).result.isOk then [message] else []
  | _ => []

variable {e new : Engine} {l l' : List Registration} {starts : List Start} {m : Moment}
  {ms : List Moment} {a v : Value} {s s' : Session} {c : Call}

/-- A request that fails enters nothing. -/
private theorem incrementsAt_of_error {f : Failure} (hf : (e.meet m).result = .error f) :
    e.incrementsAt a m = [] := by
  unfold incrementsAt
  split
  · simp [hf, Except.isOk, Except.toBool]
  · rfl

private theorem remarksAt_of_error {f : Failure} (hf : (e.meet m).result = .error f) :
    e.remarksAt a m = [] := by
  unfold remarksAt
  split
  · simp [hf, Except.isOk, Except.toBool]
  · rfl

/-- What becomes of the session at an address at a moment: it is new, or something is entered in
it. -/
def Settled (e : Engine) (m : Moment) (a : Value) (s' : Session) : Prop :=
  e.Adds m a ∧ s' = Session.initial a m.now ∨
    ¬e.Removes m a ∧ ∃ s, e.sessionAt? a = some s ∧
      s.Posts m.now (e.incrementsAt a m) (e.remarksAt a m) s'

/-- A session is kept if nothing is entered in it. -/
private theorem settled_of_nothing (hs : e.sessionAt? a = some s) (hremoves : ¬e.Removes m a)
    (hincrements : e.incrementsAt a m = []) (hremarks : e.remarksAt a m = []) :
    e.Settled m a s := by
  refine .inr ⟨hremoves, s, hs, ?_⟩
  rw [hincrements, hremarks]
  exact .nothing

/-- A call that is not for a removal removes nothing. -/
private theorem not_removes (hmove : m.move = .call c) (hc : ∀ v, c ≠ .removePeer v) :
    ¬e.Removes m a := by
  rintro ⟨hmove', _⟩
  exact hc a (Move.call.inj (hmove.symm.trans hmove'))

/-- After a change of the session at an address, a session is the new one, or an old one
elsewhere. -/
private theorem at?_record {r' : Registration}
    (hr' : at? (adjust l v fun r => { r with session := s }) a = some r') :
    (v = a ∧ r'.session = s) ∨ (a.eqv v = false ∧ at? l a = some r') := by
  rw [at?_adjust (by exact fun _ => rfl), Option.map_eq_some_iff] at hr'
  obtain ⟨r, hr, rfl⟩ := hr'
  have ha := (mem_of_at? hr).2
  cases hmatch : matchesAt v r with
  | true => exact .inl ⟨(matchesAt_iff.mp hmatch).trans ha.symm, rfl⟩
  | false => exact .inr ⟨ha ▸ hmatch, hr⟩

/-- An address that is registered equals itself. -/
private theorem eqv_self_of_at? {r : Registration} (hr : at? l v = some r) : v.eqv v = true := by
  rw [(mem_of_at? hr).2]
  simp

private theorem Holds.sessionAt?_of_at? (h : e.Holds l starts) {r : Registration}
    (hr : at? l a = some r) : e.sessionAt? a = some r.session := by
  rw [h.sessionAt?_eq, hr, Option.map_some]

/-- A request to note an error enters it in the session at its address, and nothing elsewhere. -/
private theorem Holds.settled_remark (h : e.Holds l starts) {message : Value}
    (hmove : m.move = .call (.setSessionError v message)) (hdone : (e.meet m).result = .ok .done)
    {r r' : Registration} (hr : at? l v = some r)
    (hr' : at? (adjust l v fun r' => { r' with session :=
      { r.session with lastError := message } }) a = some r') : e.Settled m a r'.session := by
  have hremoves : ¬e.Removes m a := not_removes hmove (by simp)
  have hincrements : e.incrementsAt a m = [] := by simp only [incrementsAt, hmove]
  have hremarks : e.remarksAt a m = if a.eqv v then [message] else [] := by
    simp [remarksAt, hmove, hdone, Except.isOk, Except.toBool]
  rcases at?_record hr' with ⟨rfl, hs⟩ | ⟨hne, hother⟩
  · have hself : v.eqv v = true := eqv_self_of_at? hr
    refine .inr ⟨hremoves, r.session, h.sessionAt?_of_at? hr, ?_⟩
    rw [hincrements, hremarks, if_pos hself, hs]
    exact .remark message
  · exact settled_of_nothing (h.sessionAt?_of_at? hother) hremoves hincrements
      (by rw [hremarks, hne]; rfl)

/-- A request to count messages enters them in the session at its address, and nothing elsewhere. -/
private theorem Holds.settled_count (h : e.Holds l starts) {i j : Int}
    (hmove : m.move = .call (.incrementCounters v (.int i) (.int j)))
    (hdone : v = a → (e.meet m).result = .ok .done) {r r' : Registration} (hr : at? l v = some r)
    (hr' : at? (adjust l v fun r' => { r' with session :=
      (r.session.count (.int i) (.int j)).1 }) a = some r') : e.Settled m a r'.session := by
  have hremoves : ¬e.Removes m a := not_removes hmove (by simp)
  have hremarks : e.remarksAt a m = [] := by simp only [remarksAt, hmove]
  rcases at?_record hr' with ⟨rfl, hs⟩ | ⟨hne, hother⟩
  · have hself : v.eqv v = true := eqv_self_of_at? hr
    have hincrements : e.incrementsAt v m = [(i, j)] := by
      simp [incrementsAt, hmove, hdone rfl, hself, Except.isOk, Except.toBool]
    refine .inr ⟨hremoves, r.session, h.sessionAt?_of_at? hr, ?_⟩
    rw [hincrements, hremarks, hs]
    exact .count i j
  · have hincrements : e.incrementsAt a m = [] := by simp [incrementsAt, hmove, hne]
    exact settled_of_nothing (h.sessionAt?_of_at? hother) hremoves hincrements hremarks

/-- A request enters in the session at an address what it is for. -/
private theorem Holds.settled_call (h : e.Holds l starts) (hmove : m.move = .call c)
    (hrequest : c.isRequest = true) (hplain : c.IsPlain)
    (hcounts : ∀ s, e.sessionAt? a = some s → s.CountsIntegers)
    (hs' : (e.after m).sessionAt? a = some s') : e.Settled m a s' := by
  obtain ⟨v, hv⟩ := Call.exists_target hrequest
  obtain ⟨out, hout, hedited, hresult⟩ := perform_follows h.registry_eq hrequest hv m.now
  have hsettles := Call.settles hrequest e.faults.isOn (at? l v) m.now
  have hmeet : e.meet m = Call.changing out := (meet_call hmove).trans hout
  have hregistry := hedited.registry_eq h.registry_eq
  have hanswer : (e.meet m).result = out.result.map fun _ => .done := by rw [hmeet]; rfl
  rw [hresult] at hanswer
  rw [sessionAt?, after, hmeet, Call.changing, hregistry, Registry.ofList, get?_column,
    Option.map_eq_some_iff] at hs'
  obtain ⟨r', hr', rfl⟩ := hs'
  generalize c.plan e.faults.isOn (at? l v) m.now = plan at hsettles hanswer hr'
  cases hsettles with
  | fails c f =>
    refine settled_of_nothing (h.sessionAt?_of_at? hr') (fun hremoves => ?_)
      (incrementsAt_of_error hanswer) (remarksAt_of_error hanswer)
    rw [hremoves.2] at hanswer
    cases hanswer
  | @enroll input p b hp hvalid hfound =>
    rw [Edit.apply, at?_append_singleton, Option.or_eq_some_iff] at hr'
    rcases hr' with hr' | ⟨_, hr'⟩
    · exact settled_of_nothing (h.sessionAt?_of_at? hr') (not_removes hmove (by simp))
        (by simp only [incrementsAt, hmove]) (by simp only [remarksAt, hmove])
    · split at hr'
      · rename_i hmatch
        obtain rfl := Option.some.inj hr'
        have hab : a = .text b := matchesAt_iff.mp hmatch
        have haddress := Peer.address_of_validate hvalid
        exact .inl ⟨⟨input, p, hmove, hp, haddress.trans hab.symm, hanswer⟩, by rw [hab]; rfl⟩
      · cases hr'
  | drop u hfound =>
    obtain rfl : u = v := Option.some.inj hv
    rw [Edit.apply, at?_without, Option.filter_eq_some_iff] at hr'
    obtain ⟨hr', hmatch⟩ := hr'
    refine settled_of_nothing (h.sessionAt?_of_at? hr') ?_ (by simp only [incrementsAt, hmove])
      (by simp only [remarksAt, hmove])
    rintro ⟨hmove', _⟩
    obtain rfl : u = a := Call.removePeer.inj (Move.call.inj (hmove.symm.trans hmove'))
    rw [matchesAt_iff.mpr (mem_of_at? hr').2] at hmatch
    cases hmatch
  | configure input p hfound =>
    rw [Edit.apply, at?_adjust (by exact fun _ => rfl), Option.map_eq_some_iff] at hr'
    obtain ⟨r, hr, rfl⟩ := hr'
    have hsame :
        (if matchesAt v r = true then { r with peer := p } else r).session = r.session := by
      split <;> rfl
    rw [hsame]
    exact settled_of_nothing (h.sessionAt?_of_at? hr) (not_removes hmove (by simp))
      (by simp only [incrementsAt, hmove]) (by simp only [remarksAt, hmove])
  | remark u message hfound =>
    obtain rfl : u = v := Option.some.inj hv
    exact h.settled_remark hmove hanswer hfound hr'
  | @count r u received sent hfound =>
    obtain rfl : u = v := Option.some.inj hv
    obtain ⟨i, j, rfl, rfl⟩ := hplain u received sent rfl
    refine h.settled_count hmove (fun hua => ?_) hfound hr'
    obtain ⟨x, y, hx, hy⟩ := hcounts _ (h.sessionAt?_of_at? (hua ▸ hfound))
    rw [hanswer, Session.count_integers hx hy]
    rfl

/-- Where the registrations stay, the sessions do. -/
private theorem settled_of_registry (hregistry : (e.after m).registry = e.registry)
    (hm : ∀ c, m.move = .call c → c.isRequest = false)
    (hs' : (e.after m).sessionAt? a = some s') : e.Settled m a s' := by
  rw [sessionAt?, hregistry] at hs'
  refine settled_of_nothing hs' ?_ ?_ ?_
  · rintro ⟨hmove, _⟩
    cases hm _ hmove
  · unfold incrementsAt
    split
    · rename_i hmove
      cases hm _ hmove
    · rfl
  · unfold remarksAt
    split
    · rename_i hmove
      cases hm _ hmove
    · rfl

/-- A turn moves the session of the registration that the walk serves, or none. -/
private theorem Holds.settled_turn (h : e.Holds l starts) {i : Nat} {o : Observers} {heeding : Bool}
    (hmove : m.move = .turn i o heeding) (hs' : (e.after m).sessionAt? a = some s') :
    e.Settled m a s' := by
  have hcall (c : Call) (hc : m.move = .call c) : c.isRequest = false := by
    rw [hmove] at hc
    cases hc
  have hincrements : e.incrementsAt a m = [] := by simp only [incrementsAt, hmove]
  have hremarks : e.remarksAt a m = [] := by simp only [remarksAt, hmove]
  cases hw : e.walk? i with
  | none =>
    refine settled_of_registry ?_ hcall hs'
    rw [after_turn hmove, turnOf_of_none hw]
  | some w =>
    have hregistry := h.registry_turn (List.mem_of_getElem? hw) heeding m.now o
    cases hwrites : w.writes? heeding e.registry m.now with
    | none =>
      refine settled_of_registry ?_ hcall hs'
      rw [after_turn hmove, turnOf_of_some hw, hregistry, hwrites, h.registry_eq]
      rfl
    | some s =>
      obtain ⟨r, hr, _, rfl⟩ := h.registration_of_writes (List.mem_of_getElem? hw) hwrites
      rw [sessionAt?, after_turn hmove, turnOf_of_some hw, hregistry, hwrites, Registry.ofList,
        get?_column, Option.map_eq_some_iff] at hs'
      obtain ⟨r', hr', rfl⟩ := hs'
      have hremoves : ¬e.Removes m a := fun hremoves => by cases hcall _ hremoves.1
      rcases at?_record hr' with ⟨rfl, hs⟩ | ⟨_, hr⟩
      · refine .inr ⟨hremoves, r.session, h.sessionAt?_of_at? hr, ?_⟩
        rw [hincrements, hremarks, hs]
        exact .advance
      · exact settled_of_nothing (h.sessionAt?_of_at? hr) hremoves hincrements hremarks

/-- What becomes of the session at an address at a moment. -/
private theorem Holds.settled (h : e.Holds l starts) (hplain : m.IsPlain)
    (hcounts : ∀ s, e.sessionAt? a = some s → s.CountsIntegers)
    (hs' : (e.after m).sessionAt? a = some s') : e.Settled m a s' := by
  cases hmove : m.move with
  | call c =>
    cases hrequest : c.isRequest with
    | true => exact h.settled_call hmove hrequest (hplain c hmove) hcounts hs'
    | false =>
      refine settled_of_registry ?_ (fun c' hc' => ?_) hs'
      · rw [after_call hmove]
        exact (sameTables_of_not_request hrequest e m.now).registry_eq
      · rw [hmove] at hc'
        exact Move.call.inj hc' ▸ hrequest
  | turn i o heeding => exact h.settled_turn hmove hs'
  | close =>
    refine settled_of_registry ?_ (fun c hc => by rw [hmove] at hc; cases hc) hs'
    rw [after_close hmove]
    exact (Roster.cancelAll_eq _ _).1

/-- An address with a session cannot be added. -/
private theorem Holds.not_adds (h : e.Holds l starts) (hs : e.sessionAt? a = some s) :
    ¬e.Adds m a := by
  intro hadds
  obtain ⟨l', hstep⟩ := h.exists_step m
  obtain ⟨_, _, _, hnone, _⟩ := hstep.eq_append_of_adds hadds
  rw [h.sessionAt?_eq, hnone] at hs
  cases hs

/-- A moment of a run is the last one, or one of those before it. -/
private theorem split_concat {since earlier later : List Moment} {n : Moment}
    (h : since ++ [m] = earlier ++ n :: later) :
    (earlier = since ∧ n = m) ∨ ∃ later', since = earlier ++ n :: later' := by
  rcases List.eq_nil_or_concat' later with rfl | ⟨later, last, rfl⟩
  · obtain ⟨hinit, hlast⟩ := List.append_inj' h rfl
    exact .inl ⟨hinit.symm, (List.singleton_inj.mp hlast).symm⟩
  · have hsplit : since ++ [m] = (earlier ++ n :: later) ++ [last] := by
      rw [h]
      simp
    obtain ⟨hinit, _⟩ := List.append_inj' hsplit rfl
    exact .inr ⟨later, hinit⟩

/-- The accounts of each session are those of what has been entered since its address was added.
This is the last time that it was: in between it has neither been added nor removed. -/
theorem IsNew.sessions_keep_accounts (hnew : new.IsNew) (hplain : ∀ m ∈ ms, m.IsPlain)
    (hs : (new.run ms).sessionAt? a = some s) :
    ∃ before add since, ms = before ++ add :: since ∧ (new.run before).Adds add a ∧
      (∀ earlier m later, since = earlier ++ m :: later →
        ¬((new.run (before ++ [add])).run earlier).Adds m a ∧
          ¬((new.run (before ++ [add])).run earlier).Removes m a) ∧
      s.Accounts ((new.run (before ++ [add])).gather (incrementsAt a) since)
        ((new.run (before ++ [add])).gather (remarksAt a) since) := by
  -- by induction on the run from its end: the last moment adds the address, or enters something
  induction ms using List.reverseRecOn generalizing s with
  | nil =>
    have hregistry : (new.run []).registry = {} := hnew.registry_eq
    rw [sessionAt?, hregistry] at hs
    cases hs
  | append_singleton ms m ih =>
    have hplain' (n : Moment) (hn : n ∈ ms) : n.IsPlain := hplain n (List.mem_append_left _ hn)
    obtain ⟨l, starts, h⟩ := (hnew.reachable.run ms).exists_holds
    have hcounts (s : Session) (hs : (new.run ms).sessionAt? a = some s) : s.CountsIntegers := by
      obtain ⟨_, _, _, _, _, _, haccounts⟩ := ih hplain' hs
      exact ⟨_, _, haccounts.received_eq, haccounts.sent_eq⟩
    rw [run_append] at hs
    rcases h.settled (hplain m (by simp)) hcounts hs with ⟨hadds, rfl⟩ | ⟨hstays, s₀, hs₀, hposts⟩
    · exact ⟨ms, m, [], rfl, hadds, by simp, Session.accounts_initial a m.now⟩
    have hfree : ¬(new.run ms).Adds m a := h.not_adds hs₀
    obtain ⟨before, add, since, rfl, hadds, hkept, haccounts⟩ := ih hplain' hs₀
    have hrun : new.run (before ++ add :: since) = (new.run (before ++ [add])).run since := by
      rw [← run_append, List.append_assoc]
      rfl
    rw [hrun] at hfree hstays hposts
    refine ⟨before, add, since ++ [m], by simp, hadds, fun earlier n later hsince => ?_, ?_⟩
    · rcases split_concat hsince with ⟨rfl, rfl⟩ | ⟨later', hsince'⟩
      · exact ⟨hfree, hstays⟩
      · exact hkept earlier n later' hsince'
    · rw [gather_append, gather_append, gather_singleton, gather_singleton]
      exact haccounts.posts hposts

/-- A run in which the session of a peer that was removed and added again becomes established, with
messages counted before, between and after. -/
def countedRun : List Moment := [
  ⟨.call (.addPeer (.record samplePeer)), 0.0⟩,
  ⟨.call (.incrementCounters sampleAddress (.int 30) (.int 40)), 0.0⟩,
  ⟨.call (.setSessionError sampleAddress (.text "cease")), 0.0⟩,
  ⟨.call (.removePeer sampleAddress), 1.0⟩,
  ⟨.call (.addPeer (.record samplePeer)), 1.0⟩,
  ⟨.call (.incrementCounters sampleAddress (.int 3) (.int 4)), 1.0⟩,
  ⟨.turn 1 {} true, 1.0⟩, ⟨.turn 1 {} true, 2.0⟩, ⟨.turn 1 {} true, 3.0⟩,
  ⟨.call (.incrementCounters sampleAddress (.int (-1)) (.int 4)), 3.0⟩,
  ⟨.turn 1 {} true, 4.0⟩, ⟨.turn 1 {} true, 5.0⟩, ⟨.turn 1 {} true, 6.0⟩,
  ⟨.call (.setSessionError sampleAddress (.text "hold timer expired")), 7.0⟩,
  ⟨.call (.incrementCounters sampleAddress (.int 5) (.int 6)), 7.0⟩]

/-- The counters of the established session are those of the increments of 3 and 4 and of 5 and 6,
and what being established adds. -/
theorem sessions_keep_accounts_countedRun :
    IsNew {} ∧ (∀ m ∈ countedRun, m.IsPlain) ∧
      ∃ s, (({} : Engine).run countedRun).sessionAt? sampleAddress = some s ∧
        s.isEstablished = true ∧ s.messagesReceived = .int 1008 ∧ s.messagesSent = .int 910 ∧
        s.lastError = .text "hold timer expired" ∧
        ∃ before add since, countedRun = before ++ add :: since ∧
          (({} : Engine).run before).Adds add sampleAddress ∧
          s.Accounts
            ((({} : Engine).run (before ++ [add])).gather (incrementsAt sampleAddress) since)
            ((({} : Engine).run (before ++ [add])).gather (remarksAt sampleAddress) since) := by
  have hnew : IsNew {} := ⟨rfl, rfl, rfl, rfl⟩
  have hplain : ∀ m ∈ countedRun, m.IsPlain := by
    intro m hm c hmove v received sent hcall
    subst hcall
    simp only [countedRun, List.mem_cons, List.not_mem_nil, or_false] at hm
    rcases hm with rfl | rfl | rfl | rfl | rfl | rfl | rfl | rfl | rfl | rfl | rfl | rfl | rfl |
      rfl | rfl <;> cases hmove
    all_goals exact ⟨_, _, rfl, rfl⟩
  obtain ⟨before, add, since, hrun, hadds, _, haccounts⟩ :=
    hnew.sessions_keep_accounts hplain
      (rfl : (({} : Engine).run countedRun).sessionAt? sampleAddress = some _)
  exact ⟨hnew, hplain, _, rfl, rfl, rfl, rfl, rfl, before, add, since, hrun, hadds, haccounts⟩

end Engine

end Peering
