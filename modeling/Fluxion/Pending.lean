import Fluxion.Place

/-!
# Sequences with vacant slots

The parser's work list: entries in numbered slots, each linked to the entries
before and behind it. An entry is appended in a new slot, replaced in its slot,
or extracted, which leaves the slot vacant and links its neighbours to each
other; the numbers of the other slots stay what they are.

Extracting from a slot that is vacant already is not refused. Such a slot has
no links, so the sequence takes it for its only one and is left without ends.
-/

namespace Fluxion

/-- A numbered place. A vacant slot has no entry and no links. -/
structure Slot (ε : Type) where
  entry : Option ε
  before : Option Nat
  behind : Option Nat

/-- The vacant slot. -/
def Slot.vacant {ε : Type} : Slot ε :=
  ⟨none, none, none⟩

/-- A sequence of entries, with the numbers of its first and last slot and the
number of its entries. -/
structure Pending (ε : Type) where
  slots : Array (Slot ε)
  first : Option Nat
  last : Option Nat
  count : Int

namespace Pending

variable {ε : Type}

/-- The sequence without slots. -/
def empty : Pending ε :=
  ⟨#[], none, none, 0⟩

/-- Changes the slot with a number, if there is such a slot. -/
def modifySlot (slots : Array (Slot ε)) (number : Option Nat) (change : Slot ε → Slot ε) :
    Array (Slot ε) :=
  match number with
  | some i => slots.modify i change
  | none => slots

/-- Appends an entry in a new slot, whose number is the number of slots so
far. -/
def append (pending : Pending ε) (entry : ε) : Pending ε :=
  let number := pending.slots.size
  let linked := modifySlot pending.slots pending.last fun slot =>
    { slot with behind := some number }
  { slots := linked.push ⟨some entry, pending.last, none⟩
    first := if pending.last.isNone then some number else pending.first
    last := some number
    count := pending.count + 1 }

/-- A sequence of entries in their order. -/
def ofList (entries : List ε) : Pending ε :=
  entries.foldl append empty

/-- Takes the entry out of a slot and links the slot's neighbours to each other.
There is no answer when no slot has the number; the entry is missing when the
slot is vacant. -/
def extract? (pending : Pending ε) (i : Nat) : Option (Option ε × Pending ε) :=
  (pending.slots[i]?).map fun slot =>
    let bridged :=
      modifySlot
        (modifySlot pending.slots slot.before fun other => { other with behind := slot.behind })
        slot.behind fun other => { other with before := slot.before }
    (slot.entry,
      { slots := bridged.modify i fun _ => Slot.vacant
        first := if slot.before.isNone then slot.behind else pending.first
        last := if slot.behind.isNone then slot.before else pending.last
        count := pending.count - 1 })

/-- Takes the entry out of the slot at a place, counted from either end of the
slots. -/
def extractAt? (pending : Pending ε) (index : Int) : Option (Option ε × Pending ε) :=
  (place? pending.slots.size index).bind pending.extract?

/-- Puts an entry into a slot in place of the one there. -/
def replace (pending : Pending ε) (i : Nat) (entry : ε) : Pending ε :=
  { pending with slots := pending.slots.modify i fun slot => { slot with entry := some entry } }

/-- The entry of a slot. -/
def entry? (pending : Pending ε) (i : Nat) : Option ε :=
  (pending.slots[i]?).bind (·.entry)

/-- The number of the slot before a slot. -/
def before? (pending : Pending ε) (i : Nat) : Option Nat :=
  (pending.slots[i]?).bind (·.before)

/-- The number of the slot behind a slot. -/
def behind? (pending : Pending ε) (i : Nat) : Option Nat :=
  (pending.slots[i]?).bind (·.behind)

/-- Follows the links behind a slot for at most `steps` slots. -/
def follow (pending : Pending ε) : Nat → Option Nat → List Nat
  | 0, _ | _, none => []
  | steps + 1, some i => i :: pending.follow steps (pending.behind? i)

/-- The numbers of the linked slots, in order. Links lead to later slots, so
there are no more of them than slots. -/
def numbers (pending : Pending ε) : List Nat :=
  pending.follow pending.slots.size pending.first

/-- The entries of the linked slots, in order. -/
def entries (pending : Pending ε) : List (Option ε) :=
  pending.numbers.map pending.entry?

/-- The number of the slot whose entry has the highest rank, the first of them
when several do. Entries without a rank are passed over. -/
def highest? (pending : Pending ε) (rank : ε → Option Int) : Option Nat :=
  (pending.numbers.foldl (fun (best : Option (Nat × Int)) i =>
    match (pending.entry? i).bind rank, best with
    | none, best => best
    | some found, none => some (i, found)
    | some found, some (j, leading) =>
        if leading < found then some (i, found) else some (j, leading)) none).map (·.1)

end Pending

end Fluxion
