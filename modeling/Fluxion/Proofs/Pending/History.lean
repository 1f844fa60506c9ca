import Fluxion.Parsing
import Fluxion.Proofs.Pending

/-!
# A pending sequence after any changes

An entry keeps the number that it is appended under, whatever happens to other entries, so the
changes that were made can be kept account of in a ledger: a list with a place for each entry that
was appended, where the entry is replaced, and is crossed out when it is extracted. Nothing in a
ledger is linked.

What is left in the ledger is the list that the sequence holds. This is kept by each change of an
entry that is left, so it is true after all of them, and the links, the ends, the count and the
highest rank can be read off the ledger.
-/

namespace Fluxion.Pending

variable {ε : Type}

/-- A change of a sequence. -/
inductive Change (ε : Type) where
  | append (entry : ε)
  | replace (i : Nat) (entry : ε)
  | extract (i : Nat)

/-- The sequence after a change. -/
def change? (pending : Pending ε) : Change ε → Option (Pending ε)
  | .append entry => some (pending.append entry)
  | .replace i entry => some (pending.replace i entry)
  | .extract i => (pending.extract? i).map Prod.snd

/-! ## The ledger -/

/-- A place for each entry that was appended. Places of extracted entries are empty. -/
abbrev Ledger (ε : Type) : Type :=
  List (Option ε)

namespace Ledger

/-- The entry with a number, if one was appended under it and not extracted since. -/
def entry? (ledger : Ledger ε) (i : Nat) : Option ε :=
  ledger[i]?.join

/-- The ledger after a change. An entry may be replaced or extracted only if it is there. -/
def change? (ledger : Ledger ε) : Change ε → Option (Ledger ε)
  | .append entry => some (ledger ++ [some entry])
  | .replace i entry => (ledger.entry? i).map fun _ => ledger.set i (some entry)
  | .extract i => (ledger.entry? i).map fun _ => ledger.set i none

/-- The entries that are left, with their numbers, if the first place has the number `start`. -/
def liveFrom (start : Nat) (ledger : Ledger ε) : List (Nat × ε) :=
  (ledger.zipIdx start).filterMap fun (place, i) => place.map fun entry => (i, entry)

/-- The entries that are left, with their numbers, in the order in which they were appended. -/
def live (ledger : Ledger ε) : List (Nat × ε) :=
  ledger.liveFrom 0

/-- The numbers of the entries that are left, in ascending order. -/
def numbers (ledger : Ledger ε) : List Nat :=
  ledger.live.map Prod.fst

theorem liveFrom_cons (start : Nat) (place : Option ε) (ledger : Ledger ε) :
    liveFrom start (place :: ledger) =
      (place.map fun entry => (start, entry)).toList ++ liveFrom (start + 1) ledger := by
  cases place <;> simp [liveFrom]

theorem live_append (ledger later : Ledger ε) :
    live (ledger ++ later) = live ledger ++ liveFrom ledger.length later := by
  simp [live, liveFrom, List.zipIdx_append]

theorem mem_live_iff {ledger : Ledger ε} {i : Nat} {entry : ε} :
    (i, entry) ∈ ledger.live ↔ ledger.entry? i = some entry := by
  simp [live, liveFrom, entry?, List.mem_zipIdx_iff_getElem?, Option.join_eq_some_iff]

theorem mem_numbers_iff {ledger : Ledger ε} {i : Nat} :
    i ∈ ledger.numbers ↔ ∃ entry, ledger.entry? i = some entry := by
  simp [numbers, ← mem_live_iff]

/-- What is put in the place of an entry, another one or none, is what is left in its place. -/
theorem exists_live_set {ledger : Ledger ε} {i : Nat} {entry : ε}
    (found : ledger.entry? i = some entry) :
    ∃ before after, ledger.live = before ++ (i, entry) :: after ∧
      ∀ place, live (ledger.set i place) =
        before ++ ((place.map fun other => (i, other)).toList ++ after) := by
  have here : ledger[i]? = some (some entry) := Option.join_eq_some_iff.mp found
  obtain ⟨below, same⟩ := List.getElem?_eq_some_iff.mp here
  have placed : ∀ place, live (ledger.set i place) = live (ledger.take i) ++
      ((place.map fun other => (i, other)).toList ++
        liveFrom (i + 1) (ledger.drop (i + 1))) := by
    intro place
    rw [List.set_eq_take_append_cons_drop, if_pos below, live_append, liveFrom_cons,
      List.length_take_of_le (Nat.le_of_lt below)]
  -- The ledger itself has the entry put where it is.
  have unchanged : ledger.set i (some entry) = ledger := by
    rw [← same, List.set_getElem_self]
  have whole := placed (some entry)
  rw [unchanged] at whole
  exact ⟨_, _, whole, placed⟩

end Ledger

/-! ## A sequence with its ledger -/

/-- Extracting leaves every slot in its place. -/
theorem size_of_extract? {pending rest : Pending ε} {i : Nat} {entry : Option ε}
    (extracted : pending.extract? i = some (entry, rest)) :
    rest.slots.size = pending.slots.size := by
  obtain ⟨slot, _, same⟩ := Option.map_eq_some_iff.mp extracted
  have sizes := congrArg (fun result => result.2.slots.size) same
  simpa using sizes.symm

/-- The sequence holds what is left in a ledger, and it has a slot for each place. -/
structure Tracks (pending : Pending ε) (ledger : Ledger ε) : Prop where
  holds : Holds pending ledger.live
  size : pending.slots.size = ledger.length

namespace Tracks

variable {pending : Pending ε} {ledger : Ledger ε} {i : Nat} {entry : ε}

theorem empty : Tracks (Pending.empty : Pending ε) [] :=
  ⟨.empty, rfl⟩

theorem append (tracks : Tracks pending ledger) (entry : ε) :
    Tracks (pending.append entry) (ledger ++ [some entry]) where
  holds := by
    have grown := tracks.holds.append entry
    rw [tracks.size] at grown
    rwa [Ledger.live_append]
  size := by simp [Pending.append, tracks.size]

/-- An entry that is left is one of those that the sequence holds, and a change in its place
changes nothing else. -/
theorem exists_split (tracks : Tracks pending ledger) (found : ledger.entry? i = some entry) :
    ∃ before after, ledger.live = before ++ (i, entry) :: after ∧
      Holds pending (before ++ (i, entry) :: after) ∧
      ∀ place, Ledger.live (ledger.set i place) =
        before ++ ((place.map fun other => (i, other)).toList ++ after) := by
  obtain ⟨before, after, whole, placed⟩ := Ledger.exists_live_set found
  have holds := tracks.holds
  rw [whole] at holds
  exact ⟨before, after, whole, holds, placed⟩

theorem replace (tracks : Tracks pending ledger) (found : ledger.entry? i = some entry)
    (other : ε) : Tracks (pending.replace i other) (ledger.set i (some other)) := by
  obtain ⟨before, after, _, holds, placed⟩ := tracks.exists_split found
  constructor
  · rw [placed]
    exact holds.replace other
  · simp [Pending.replace, tracks.size]

/-- An entry that is left can be extracted. Only its number is gone then, and the others stand in
the same order. -/
theorem extract? (tracks : Tracks pending ledger) (found : ledger.entry? i = some entry) :
    ∃ rest, pending.extract? i = some (some entry, rest) ∧ Tracks rest (ledger.set i none) ∧
      ∃ before after, pending.numbers = before ++ i :: after ∧ rest.numbers = before ++ after := by
  obtain ⟨before, after, _, holds, placed⟩ := tracks.exists_split found
  obtain ⟨rest, extracted, restHolds⟩ := holds.extract?
  refine ⟨rest, extracted, ⟨?_, ?_⟩, before.map Prod.fst, after.map Prod.fst, ?_, ?_⟩
  · rw [placed]
    exact restHolds
  · rw [size_of_extract? extracted, List.length_set, tracks.size]
  · rw [holds.numbers_eq, List.map_append, List.map_cons]
  · rw [restHolds.numbers_eq, List.map_append]

/-- A change that the ledger allows is made in the sequence. -/
theorem change? (tracks : Tracks pending ledger) {change : Change ε} {ledger' : Ledger ε}
    (allowed : ledger.change? change = some ledger') :
    ∃ pending', pending.change? change = some pending' ∧ Tracks pending' ledger' := by
  cases change with
  | append entry =>
      cases allowed
      exact ⟨_, rfl, tracks.append entry⟩
  | replace i other =>
      obtain ⟨entry, found, rfl⟩ := Option.map_eq_some_iff.mp allowed
      exact ⟨_, rfl, tracks.replace found other⟩
  | extract i =>
      obtain ⟨entry, found, rfl⟩ := Option.map_eq_some_iff.mp allowed
      obtain ⟨rest, extracted, restTracks, _⟩ := tracks.extract? found
      refine ⟨rest, ?_, restTracks⟩
      rw [Pending.change?, extracted, Option.map_some]

/-- All changes that the ledger allows, one after the other, are made in the sequence. -/
theorem changes (tracks : Tracks pending ledger) {changes : List (Change ε)}
    {ledger' : Ledger ε} (allowed : changes.foldlM Ledger.change? ledger = some ledger') :
    ∃ pending', changes.foldlM Pending.change? pending = some pending' ∧
      Tracks pending' ledger' := by
  induction changes generalizing pending ledger with
  | nil =>
      cases allowed
      exact ⟨pending, rfl, tracks⟩
  | cons change changes ih =>
      rw [List.foldlM_cons] at allowed
      obtain ⟨next, made, later⟩ := Option.bind_eq_some_iff.mp allowed
      obtain ⟨pending', changed, nextTracks⟩ := tracks.change? made
      rw [List.foldlM_cons, changed]
      exact ih nextTracks later

end Tracks

/-! ## What the ledger says -/

/-- Everything that a sequence says can be read off a ledger: its entries and how to go along
them, their count, both ends, and both neighbours of each number that is left. Going along ends,
since more steps visit nothing more. The slots of extracted entries are vacant. -/
structure Represents (pending : Pending ε) (ledger : Ledger ε) : Prop where
  ascending : ledger.numbers.Pairwise (· < ·)
  size : pending.slots.size = ledger.length
  entry : ∀ i, pending.entry? i = ledger.entry? i
  iteration : ∀ steps ≥ ledger.length, pending.follow steps pending.first = ledger.numbers
  entries : pending.entries = ledger.live.map fun slot => some slot.2
  count : pending.count = ledger.live.length
  first : pending.first = ledger.numbers.head?
  last : pending.last = ledger.numbers.getLast?
  before : ∀ i ∈ ledger.numbers,
    pending.before? i = (ledger.numbers.filter fun j => j < i).getLast?
  behind : ∀ i ∈ ledger.numbers,
    pending.behind? i = (ledger.numbers.filter fun j => i < j).head?
  vacated : ∀ i : Nat, ledger[i]? = some none → pending.slots[i]? = some Slot.vacant

namespace Tracks

variable {pending : Pending ε} {ledger : Ledger ε}

/-- A number that is left stands behind all smaller ones and before all larger ones, and it is
linked to those next to it. -/
theorem neighbours (tracks : Tracks pending ledger) {i : Nat} (member : i ∈ ledger.numbers) :
    pending.before? i = (ledger.numbers.filter fun j => j < i).getLast? ∧
      pending.behind? i = (ledger.numbers.filter fun j => i < j).head? := by
  obtain ⟨entry, found⟩ := Ledger.mem_numbers_iff.mp member
  obtain ⟨before, after, whole, holds, _⟩ := tracks.exists_split found
  obtain ⟨smaller, larger, _⟩ := holds.split_ascending
  have numbers : ledger.numbers = before.map Prod.fst ++ i :: after.map Prod.fst := by
    rw [Ledger.numbers, whole, List.map_append, List.map_cons]
  have below : ledger.numbers.filter (fun j => j < i) = before.map Prod.fst := by
    rw [numbers, List.filter_append, List.filter_eq_self.mpr (by simpa using smaller),
      List.filter_eq_nil_iff.mpr, List.append_nil]
    intro j member
    rcases List.mem_cons.mp member with rfl | member
    · simp
    · simpa using Nat.le_of_lt (larger j member)
  have above : ledger.numbers.filter (fun j => i < j) = after.map Prod.fst := by
    rw [numbers, List.filter_append, List.filter_eq_nil_iff.mpr, List.nil_append,
      List.filter_cons_of_neg (by simp), List.filter_eq_self.mpr (by simpa using larger)]
    intro j member
    simpa using Nat.le_of_lt (smaller j member)
  constructor
  · rw [holds.before?_eq, below, lastNumber, List.getLast?_map]
  · rw [holds.behind?_eq, above, firstNumber, List.head?_map]

theorem entry?_eq (tracks : Tracks pending ledger) (i : Nat) :
    pending.entry? i = ledger.entry? i := by
  cases found : ledger.entry? i with
  | some entry =>
      obtain ⟨before, after, _, holds, _⟩ := tracks.exists_split found
      exact holds.entry?_eq
  | none =>
      have absent : i ∉ ledger.numbers := by
        simp [Ledger.mem_numbers_iff, found]
      by_cases inside : i < pending.slots.size
      · rw [Pending.entry?, tracks.holds.vacated i inside absent]
        rfl
      · rw [Pending.entry?, Array.getElem?_eq_none (Nat.not_lt.mp inside)]
        rfl

theorem represents (tracks : Tracks pending ledger) : pending.Represents ledger where
  ascending := tracks.holds.ascending
  size := tracks.size
  entry := tracks.entry?_eq
  iteration := by
    intro steps enough
    refine tracks.holds.follow_first_eq (Nat.le_trans ?_ enough)
    rw [← tracks.size]
    exact tracks.holds.length_le_size
  entries := by
    rw [Pending.entries, tracks.holds.numbers_eq, List.map_map]
    refine List.map_congr_left ?_
    rintro ⟨i, entry⟩ member
    exact (tracks.entry?_eq i).trans (Ledger.mem_live_iff.mp member)
  count := tracks.holds.count
  first := by
    rw [tracks.holds.first, firstNumber, Ledger.numbers, List.head?_map]
  last := by
    rw [tracks.holds.last, lastNumber, Ledger.numbers, List.getLast?_map]
  before := fun _ member => (tracks.neighbours member).1
  behind := fun _ member => (tracks.neighbours member).2
  vacated := by
    intro i crossed
    have below : i < ledger.length := (List.getElem?_eq_some_iff.mp crossed).1
    rw [← tracks.size] at below
    have absent : i ∉ ledger.numbers := by
      simp [Ledger.mem_numbers_iff, Ledger.entry?, crossed]
    exact tracks.holds.vacated i below absent

end Tracks

/-! ## The highest rank in the ledger -/

/-- The entry with this number is left, and no entry that is left has a higher rank, nor the same
rank if it was appended earlier. -/
def Ledger.Leads (ledger : Ledger ε) (rank : ε → Option Int) (i : Nat) : Prop :=
  ∃ entry highest, ledger.entry? i = some entry ∧ rank entry = some highest ∧
    ∀ j other found, ledger.entry? j = some other → rank other = some found →
      found ≤ highest ∧ (j < i → found < highest)

/-- There is one leader at most. -/
theorem Ledger.Leads.unique {ledger : Ledger ε} {rank : ε → Option Int} {i j : Nat}
    (leads : ledger.Leads rank i) (leads' : ledger.Leads rank j) : i = j := by
  obtain ⟨entry, highest, found, ranked, best⟩ := leads
  obtain ⟨entry', highest', found', ranked', best'⟩ := leads'
  have notHigher := best j entry' highest' found' ranked'
  have notLower := best' i entry highest found ranked
  omega

namespace Tracks

variable {pending : Pending ε} {ledger : Ledger ε} {rank : ε → Option Int} {i : Nat}

theorem leads_of_highest? (tracks : Tracks pending ledger)
    (found : pending.highest? rank = some i) : ledger.Leads rank i := by
  obtain ⟨before, entry, after, highest, whole, isHighest⟩ :=
    tracks.holds.isHighest_of_highest? found
  have holds := tracks.holds
  rw [whole] at holds
  obtain ⟨_, larger, _⟩ := holds.split_ascending
  refine ⟨entry, highest, Ledger.mem_live_iff.mp (by simp [whole]), isHighest.ranked, ?_⟩
  intro j other otherRank left ranked
  have member := Ledger.mem_live_iff.mpr left
  rw [whole] at member
  rcases List.mem_append.mp member with earlier | member
  · have lower := isHighest.below other (List.mem_map_of_mem earlier) otherRank ranked
    exact ⟨Int.le_of_lt lower, fun _ => lower⟩
  · rcases List.mem_cons.mp member with same | later
    · cases same
      rw [isHighest.ranked] at ranked
      cases ranked
      exact ⟨Int.le_refl highest, fun less => absurd less (Nat.lt_irrefl i)⟩
    · have behind := larger j (List.mem_map_of_mem later)
      exact ⟨isHighest.atMost other (List.mem_map_of_mem later) otherRank ranked,
        fun less => absurd less (Nat.lt_asymm behind)⟩

/-- The search finds nothing exactly if no entry that is left has a rank. -/
theorem highest?_eq_none_iff (tracks : Tracks pending ledger) :
    pending.highest? rank = none ↔
      ∀ i entry, ledger.entry? i = some entry → rank entry = none := by
  constructor
  · intro missing i entry found
    have member : entry ∈ ledger.live.map Prod.snd :=
      List.mem_map_of_mem (Ledger.mem_live_iff.mpr found)
    exact tracks.holds.rank_eq_none_of_highest? missing entry member
  · intro unranked
    cases best : pending.highest? rank with
    | none => rfl
    | some i =>
        obtain ⟨entry, highest, found, ranked, _⟩ := tracks.leads_of_highest? best
        rw [unranked i entry found] at ranked
        cases ranked

/-- The search finds the leader. -/
theorem highest?_eq_some_iff (tracks : Tracks pending ledger) :
    pending.highest? rank = some i ↔ ledger.Leads rank i := by
  constructor
  · exact tracks.leads_of_highest?
  · intro leads
    cases best : pending.highest? rank with
    | some j => rw [(tracks.leads_of_highest? best).unique leads]
    | none =>
        obtain ⟨entry, highest, found, ranked, _⟩ := leads
        rw [tracks.highest?_eq_none_iff.mp best i entry found] at ranked
        cases ranked

end Tracks

/-- Entries are appended to the empty sequence, and those that are left are replaced and
extracted, in any way. All of this can be done, and then the sequence represents what is left.
Extracting one more entry gives that entry and changes neither the others nor their order. Of the
entries with a rank, such as the tokens that are not reduced yet, the search finds the first one
that has the highest rank, and it finds none exactly if there is none. -/
theorem represents_of_changes {changes : List (Change ε)} {ledger : Ledger ε}
    (allowed : changes.foldlM Ledger.change? [] = some ledger) :
    ∃ pending, changes.foldlM change? empty = some pending ∧ pending.Represents ledger ∧
      (∀ i entry, ledger.entry? i = some entry →
        ∃ rest, pending.extract? i = some (some entry, rest) ∧
          rest.Represents (ledger.set i none) ∧
          (∀ j, j ≠ i → rest.entry? j = pending.entry? j) ∧
          ∃ before after, pending.numbers = before ++ i :: after ∧
            rest.numbers = before ++ after) ∧
      ∀ rank : ε → Option Int,
        (∀ i, pending.highest? rank = some i ↔ ledger.Leads rank i) ∧
          (pending.highest? rank = none ↔
            ∀ i entry, ledger.entry? i = some entry → rank entry = none) := by
  obtain ⟨pending, made, tracks⟩ := Tracks.empty.changes allowed
  refine ⟨pending, made, tracks.represents, ?_,
    fun _ => ⟨fun _ => tracks.highest?_eq_some_iff, tracks.highest?_eq_none_iff⟩⟩
  intro i entry found
  obtain ⟨rest, extracted, restTracks, order⟩ := tracks.extract? found
  refine ⟨rest, extracted, restTracks.represents, ?_, order⟩
  intro j elsewhere
  rw [restTracks.entry?_eq, tracks.entry?_eq, Ledger.entry?, Ledger.entry?,
    List.getElem?_set_ne elsewhere.symm]

/-- In the parsing of `y+x`, both variables are reduced and the left one is taken from the
sequence. The operator is first then, and the next to be reduced. -/
theorem represents_of_changes_sum :
    let y : Token := ⟨.identifier, "y", 1, 4⟩
    let plus : Token := ⟨.operator, "+", 2, 1⟩
    let x : Token := ⟨.identifier, "x", 3, 4⟩
    let changes : List (Change (Entry Float)) :=
      [.append (.token y), .append (.token plus), .append (.token x),
        .replace 0 (.expr (.var y "y")), .replace 2 (.expr (.var x "x")), .extract 0]
    changes.foldlM Ledger.change? [] =
        some [none, some (.token plus), some (.expr (.var x "x"))] ∧
      ∃ pending, changes.foldlM change? empty = some pending ∧ pending.first = some 1 ∧
        pending.last = some 2 ∧ pending.before? 1 = none ∧ pending.behind? 1 = some 2 ∧
        pending.highest? Entry.rank = some 1 := by
  intro y plus x changes
  have allowed : changes.foldlM Ledger.change? [] =
      some [none, some (.token plus), some (.expr (.var x "x"))] := rfl
  obtain ⟨pending, made, represents, _, search⟩ := represents_of_changes allowed
  refine ⟨allowed, pending, made, represents.first, represents.last,
    represents.before 1 (by decide), represents.behind 1 (by decide),
    ((search Entry.rank).1 1).mpr ⟨.token plus, 1, rfl, rfl, ?_⟩⟩
  intro j other found left ranked
  rcases j with _ | _ | _ | j
  · cases left
  · cases left
    cases ranked
    exact ⟨Int.le_refl 1, fun less => absurd less (Nat.lt_irrefl 1)⟩
  · cases left
    cases ranked
  · cases left

end Fluxion.Pending
