import Peering.Proofs.Validation
import Peering.Registry

/-!
# Copies of configurations

The registry keeps a copy of a configuration and hands out copies of that. Only the members of a
set may stand in another order in a copy, so a configuration without sets is kept as it was given.
Not every valid configuration can be copied.
-/

namespace Peering

namespace Value

mutual

/-- There is no set in the value, but for the keys of mappings. -/
def isSetFree : Value → Bool
  | .list items => areSetFree items
  | .mapping entries => haveSetFree entries
  | .set _ => false
  | .pair a b => a.isSetFree && b.isSetFree
  | _ => true

/-- There is no set in the items of a list. -/
def areSetFree : List Value → Bool
  | [] => true
  | v :: rest => v.isSetFree && areSetFree rest

/-- There is no set in the values of a mapping. -/
def haveSetFree : List (Value × Value) → Bool
  | [] => true
  | (_, v) :: rest => v.isSetFree && haveSetFree rest

end

mutual

/-- A value without sets is its own copy. -/
theorem copied_eq : ∀ {v : Value}, v.isSetFree = true → v.copied = v
  | .list items, h => congrArg list (copiedItems_eq h)
  | .mapping entries, h => congrArg mapping (copiedEntries_eq h)
  | .pair _ _, h => by
    rw [isSetFree, Bool.and_eq_true] at h
    exact congrArg₂ pair (copied_eq h.1) (copied_eq h.2)
  | .null, _ | .bool _, _ | .int _, _ | .float _, _ | .text _, _ | .bytes _, _ | .shown _, _ => rfl

/-- The items of a list without sets are their own copies. -/
theorem copiedItems_eq : ∀ {items : List Value}, areSetFree items = true → copiedItems items = items
  | [], _ => rfl
  | _ :: _, h => by
    rw [areSetFree, Bool.and_eq_true] at h
    rw [copiedItems, copied_eq h.1, copiedItems_eq h.2]

/-- The entries of a mapping without sets in its values are their own copies. -/
theorem copiedEntries_eq : ∀ {entries : List (Value × Value)},
    haveSetFree entries = true → copiedEntries entries = entries
  | [], _ => rfl
  | (_, _) :: _, h => by
    rw [haveSetFree, Bool.and_eq_true] at h
    rw [copiedEntries, copied_eq h.1, copiedEntries_eq h.2]

end

end Value

/-- There is no set in the free fields of the peer. -/
def Peer.isSetFree (p : Peer) : Bool := p.freeFields.all Value.isSetFree

/-- A peer without sets is kept as it is. -/
theorem Registry.kept_eq {p : Peer} (h : p.isSetFree = true) : kept p = p := by
  have hcopied : p.copied = p := by
    simp only [Peer.isSetFree, Peer.freeFields, List.all_cons, List.all_nil, Bool.and_true,
      Bool.and_eq_true] at h
    obtain ⟨hpassword, hsource, hmapIn, hmapOut, hlistIn, hlistOut⟩ := h
    rw [Peer.copied, Value.copied_eq hpassword, Value.copied_eq hsource, Value.copied_eq hmapIn,
      Value.copied_eq hmapOut, Value.copied_eq hlistIn, Value.copied_eq hlistOut]
  rw [kept, hcopied, hcopied]

namespace Engine

/-- A value in so many lists, one inside of the other. -/
def wrapped : Nat → Value
  | 0 => .int 1
  | n + 1 => .list [wrapped n]

/-- A peer that is valid and cannot be copied. -/
def deepPeer : Peer where
  address := .text "192.0.2.2"
  localAsn := .int 65001
  remoteAsn := .int 65002
  password := wrapped 600

/-- The password of this peer is in too many lists. -/
theorem isCopyable_deepPeer : deepPeer.isCopyable = false := by decide +kernel

end Engine

end Peering
