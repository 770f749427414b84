import ClenshawCode.Value.Key

/-!
# The order of sets

A set of numbers gives its members in the order of the slots in which it keeps them. A number wants
the slot that is its residue modulo the number of slots, which is a power of two; when that slot is
taken, the ones behind it are tried, and then others that the higher digits of the number select.

Only the order of numbers is determined by the members. Texts, bytes and moments are kept by a
salted hash, so the order in which a set with one of them is read changes from one run to the next.
Nothing here stands for the salt: such a set gives its members in the order of the document, which
is one of the orders that a run may show.

The residue of a quotient is taken modulo a prime, so that equal numbers have one residue whether
they are integers or doubles.

## Main definitions

* `Value.residue?`: the residue of a number, as a natural below `2 ^ 64`
* `Value.inSlots`: the members of a set in their order, if they are numbers
-/

namespace ClenshawCode.Value

/-- The prime modulo which residues are taken. -/
def residuePrime : Nat := Nat.pow 2 61 - 1

/-- A residue with a sign as a natural below `2 ^ 64`. The residue `-1` counts as `-2`. -/
def signedResidue (negative : Bool) (n : Nat) : Nat :=
  if negative && n != 0 then Nat.pow 2 64 - (if n = 1 then 2 else n) else n

/-- The residue of a number; what is no number has none. -/
def residue? (v : Value) : Option Nat :=
  match v.number? with
  | some (.int n) => some (signedResidue (n < 0) (n.natAbs % residuePrime))
  | some (.float x) =>
    match Binary64.view x with
    | .nan => none
    | .infinite negative => some (signedResidue negative 314159)
    | .finite negative mantissa exponent =>
      -- Modulo the prime, two has the order 61, so that negative powers are positive ones too.
      some (signedResidue negative (mantissa * Nat.pow 2 (exponent % 61).toNat % residuePrime))
  | none => none

/-- The number of slots for a number of members. -/
def slotCount (members : Nat) : Nat :=
  if members < 5 then 8 else Nat.pow 2 ((2 * members).log2 + 1)

/-- The slots, each with the member that it keeps. -/
abbrev Slots := Array (Option Value)

/-- The first free slot among some slots side by side. -/
def freeSlot? (slots : Slots) (start count : Nat) : Option Nat :=
  (List.range count).findSome? fun i =>
    match slots[start + i]? with
    | some none => some (start + i)
    | _ => none

/-- The slots with one more member, which wants a slot. The first number bounds the slots that are
tried; `higher` is the part of the residue that selects the next one. -/
def keepIn : (fuel : Nat) → (wanted higher : Nat) → Value → Slots → Slots
  | 0, _, _, _, slots => slots
  | fuel + 1, wanted, higher, v, slots =>
    match freeSlot? slots wanted (if wanted + 9 < slots.size then 10 else 1) with
    | some i => slots.setIfInBounds i (some v)
    | none =>
      let higher := higher / 32
      keepIn fuel ((5 * wanted + 1 + higher) % slots.size) higher v slots

/-- The slots with one more member that has a residue. -/
def keep (slots : Slots) (member : Value × Nat) : Slots :=
  -- After thirteen trials nothing is left of the higher part, and then every slot has its turn.
  keepIn (slots.size + 13) (member.2 % slots.size) member.2 member.1 slots

/-- The members of a set in their order. If one of them is no number, a run may give them in any
order, depending on the salt of its hashes; this is the order in which they came. -/
def inSlots (members : List Value) : List Value :=
  match members.mapM fun v => v.residue?.map fun n => (v, n) with
  | some pairs =>
    let empty : Slots := Array.replicate (slotCount members.length) none
    (pairs.foldl keep empty).toList.filterMap id
  | none => members

end ClenshawCode.Value
