import Mathlib.Data.List.Perm.Subperm
import Fluxion.Pending

/-!
# A pending sequence is a list

The links of a pending sequence say one thing: which slots are occupied, and in
which order. `Holds` states this for the whole sequence at once, vacant slots
and both ends included. Each operation is then an operation on the list of
occupied slots, and everything else about links follows from that list.
-/

namespace Fluxion.Pending

variable {ε : Type}

/-- The number of the first slot of a list of occupied slots. -/
def firstNumber (live : List (Nat × ε)) : Option Nat :=
  live.head?.map Prod.fst

/-- The number of the last slot of a list of occupied slots. -/
def lastNumber (live : List (Nat × ε)) : Option Nat :=
  live.getLast?.map Prod.fst

@[simp]
theorem firstNumber_nil : firstNumber ([] : List (Nat × ε)) = none :=
  rfl

@[simp]
theorem firstNumber_cons (slot : Nat × ε) (live : List (Nat × ε)) :
    firstNumber (slot :: live) = some slot.1 :=
  rfl

@[simp]
theorem lastNumber_nil : lastNumber ([] : List (Nat × ε)) = none :=
  rfl

@[simp]
theorem lastNumber_concat (live : List (Nat × ε)) (slot : Nat × ε) :
    lastNumber (live ++ [slot]) = some slot.1 := by
  simp [lastNumber]

theorem firstNumber_append_cons (live after : List (Nat × ε)) (slot : Nat × ε) :
    firstNumber (live ++ slot :: after) = (firstNumber live).or (some slot.1) := by
  cases live <;> rfl

theorem lastNumber_append_cons (before live : List (Nat × ε)) (slot : Nat × ε) :
    lastNumber (before ++ slot :: live) = (lastNumber live).or (some slot.1) := by
  rcases List.eq_nil_or_concat' live with rfl | ⟨init, final, rfl⟩
  · simp
  · rw [← List.cons_append, ← List.append_assoc, lastNumber_concat, lastNumber_concat]
    rfl

theorem lastNumber_cons (slot : Nat × ε) (live : List (Nat × ε)) :
    lastNumber (slot :: live) = (lastNumber live).or (some slot.1) :=
  lastNumber_append_cons [] live slot

theorem mem_of_firstNumber {live : List (Nat × ε)} {i : Nat}
    (first : firstNumber live = some i) : i ∈ live.map Prod.fst := by
  cases live with
  | nil => simp at first
  | cons slot live => simp_all

theorem mem_of_lastNumber {live : List (Nat × ε)} {i : Nat}
    (last : lastNumber live = some i) : i ∈ live.map Prod.fst := by
  rcases List.eq_nil_or_concat' live with rfl | ⟨init, final, rfl⟩
  · simp at last
  · simp_all

/-- Two ways to single out an element of a list: the second is earlier, the same
or later. -/
private theorem split_cases {α : Type} {before after before' after' : List α} {x y : α}
    (same : before ++ x :: after = before' ++ y :: after') :
    (∃ middle, before = before' ++ y :: middle ∧ after' = middle ++ x :: after) ∨
      (before = before' ∧ x = y ∧ after = after') ∨
      (∃ middle, after = middle ++ y :: after' ∧ before' = before ++ x :: middle) := by
  rcases List.append_eq_append_iff.mp same with ⟨middle, rfl, rest⟩ | ⟨middle, rfl, rest⟩
  · cases middle with
    | nil => simp_all
    | cons z middle => simp_all
  · cases middle with
    | nil => simp_all
    | cons z middle => simp_all

/-- The occupied slots of a sequence, with their entries and in order, are
`live`: these slots are linked to their neighbours in `live`, all others are
vacant, and the ends and the count are those of `live`. -/
structure Holds (pending : Pending ε) (live : List (Nat × ε)) : Prop where
  ascending : (live.map Prod.fst).Pairwise (· < ·)
  occupied : ∀ {before after : List (Nat × ε)} {i : Nat} {entry : ε},
    live = before ++ (i, entry) :: after →
      pending.slots[i]? = some ⟨some entry, lastNumber before, firstNumber after⟩
  vacated : ∀ i < pending.slots.size, i ∉ live.map Prod.fst →
    pending.slots[i]? = some Slot.vacant
  first : pending.first = firstNumber live
  last : pending.last = lastNumber live
  count : pending.count = live.length

theorem getElem?_modifySlot (slots : Array (Slot ε)) (number : Option Nat)
    (change : Slot ε → Slot ε) (k : Nat) :
    (modifySlot slots number change)[k]? =
      if number = some k then slots[k]?.map change else slots[k]? := by
  cases number with
  | none => simp [modifySlot]
  | some i => simp [modifySlot, Array.getElem?_modify]

@[simp]
theorem size_modifySlot (slots : Array (Slot ε)) (number : Option Nat)
    (change : Slot ε → Slot ε) : (modifySlot slots number change).size = slots.size := by
  cases number <;> simp [modifySlot]

namespace Holds

variable {pending : Pending ε} {live before after : List (Nat × ε)} {i : Nat} {entry : ε}

/-! ## Reading a sequence -/

theorem number_lt_size (holds : Holds pending live) (member : i ∈ live.map Prod.fst) :
    i < pending.slots.size := by
  rcases List.mem_map.mp member with ⟨⟨number, entry⟩, slotMem, rfl⟩
  obtain ⟨before, after, split⟩ := List.append_of_mem slotMem
  exact (Array.getElem?_eq_some_iff.mp (holds.occupied split)).1

theorem before?_eq (holds : Holds pending (before ++ (i, entry) :: after)) :
    pending.before? i = lastNumber before := by
  simp [before?, holds.occupied rfl]

theorem behind?_eq (holds : Holds pending (before ++ (i, entry) :: after)) :
    pending.behind? i = firstNumber after := by
  simp [behind?, holds.occupied rfl]

theorem entry?_eq (holds : Holds pending (before ++ (i, entry) :: after)) :
    pending.entry? i = some entry := by
  unfold entry?
  rw [holds.occupied rfl]
  rfl

/-- The numbers before a slot are smaller and those behind it are larger. -/
theorem split_ascending (holds : Holds pending (before ++ (i, entry) :: after)) :
    (∀ j ∈ before.map Prod.fst, j < i) ∧ (∀ j ∈ after.map Prod.fst, i < j) ∧
      ∀ j ∈ before.map Prod.fst, ∀ k ∈ after.map Prod.fst, j < k := by
  have ascending := holds.ascending
  simp only [List.map_append, List.map_cons, List.pairwise_append, List.pairwise_cons,
    List.mem_cons] at ascending
  rcases ascending with ⟨_, ⟨behind, _⟩, across⟩
  exact ⟨fun j jMem => across j jMem i (Or.inl rfl), behind,
    fun j jMem k kMem => across j jMem k (Or.inr kMem)⟩

private theorem follow_eq (holds : Holds pending (before ++ after)) {steps : Nat}
    (enough : after.length ≤ steps) :
    pending.follow steps (firstNumber after) = after.map Prod.fst := by
  induction after generalizing before steps with
  | nil => cases steps <;> simp [follow]
  | cons slot after ih =>
      cases steps with
      | zero => simp at enough
      | succ steps =>
          have moved : Holds pending ((before ++ [slot]) ++ after) := by simpa using holds
          have rest := ih moved (Nat.le_of_succ_le_succ enough)
          simp only [firstNumber_cons, follow, List.map_cons]
          rw [holds.behind?_eq, rest]

/-- There are no more occupied slots than slots. -/
theorem length_le_size (holds : Holds pending live) : live.length ≤ pending.slots.size := by
  have distinct : (live.map Prod.fst).Nodup :=
    holds.ascending.imp fun smaller => Nat.ne_of_lt smaller
  have bounded : live.map Prod.fst ⊆ List.range pending.slots.size :=
    fun i member => List.mem_range.mpr (holds.number_lt_size member)
  simpa using (List.subperm_of_subset distinct bounded).length_le

/-- Following the links from the first slot visits the occupied slots and ends with the last of
them. -/
theorem follow_first_eq (holds : Holds pending live) {steps : Nat} (enough : live.length ≤ steps) :
    pending.follow steps pending.first = live.map Prod.fst := by
  rw [holds.first]
  have fromStart : Holds pending ([] ++ live) := holds
  exact follow_eq fromStart enough

theorem numbers_eq (holds : Holds pending live) : pending.numbers = live.map Prod.fst :=
  holds.follow_first_eq holds.length_le_size

/-! ## Changing a sequence -/

theorem empty : Holds (Pending.empty : Pending ε) [] where
  ascending := List.Pairwise.nil
  occupied := by simp
  vacated := by simp [Pending.empty]
  first := rfl
  last := rfl
  count := rfl

/-- An appended entry stands behind all others, in the next slot. -/
theorem append (holds : Holds pending live) (entry : ε) :
    Holds (pending.append entry) (live ++ [(pending.slots.size, entry)]) where
  ascending := by
    have bounded : ∀ i ∈ live.map Prod.fst, i < pending.slots.size :=
      fun i => holds.number_lt_size
    simpa [List.pairwise_append, holds.ascending] using bounded
  occupied := by
    intro before after i other split
    simp only [Pending.append, Array.getElem?_push, size_modifySlot, getElem?_modifySlot]
    rcases List.eq_nil_or_concat' after with rfl | ⟨after, final, rfl⟩
    · -- The new slot is linked to the slot that was last.
      have parts := List.append_inj' split (by simp)
      rcases parts with ⟨rfl, same⟩
      cases same
      simp [holds.last]
    · rw [← List.cons_append, ← List.append_assoc] at split
      rcases List.append_inj' split (by simp) with ⟨rfl, same⟩
      cases same
      have ascending := holds.split_ascending
      have below := holds.number_lt_size (i := i) (by simp)
      rw [if_neg (Nat.ne_of_lt below), holds.occupied rfl, holds.last,
        lastNumber_append_cons]
      -- The old slot is linked to the new one exactly if it was the last.
      cases after with
      | nil => simp
      | cons next after =>
          have other : (lastNumber (next :: after)).or (some i) ≠ some i := by
            intro same
            cases final : lastNumber (next :: after) with
            | none => simp [lastNumber] at final
            | some j =>
                have larger := ascending.2.1 j (mem_of_lastNumber final)
                simp_all
          rw [if_neg other]
          rfl
  vacated := by
    intro i bounded absent
    simp only [List.map_append, List.mem_append, not_or] at absent
    have older : i < pending.slots.size := by
      have notNew : i ≠ pending.slots.size := by simpa using absent.2
      have sized : (pending.append entry).slots.size = pending.slots.size + 1 := by
        simp [Pending.append]
      omega
    have notLast : pending.last ≠ some i := by
      intro last
      exact absent.1 (mem_of_lastNumber (holds.last.symm.trans last))
    simp only [Pending.append, Array.getElem?_push, size_modifySlot, getElem?_modifySlot]
    rw [if_neg (Nat.ne_of_lt older), if_neg notLast]
    exact holds.vacated i older absent.1
  first := by
    simp only [Pending.append, holds.last, holds.first]
    rcases List.eq_nil_or_concat' live with rfl | ⟨init, final, rfl⟩
    · rfl
    · simp [firstNumber_append_cons]
  last := by simp [Pending.append]
  count := by simp [Pending.append, holds.count]

/-- Replacing the entry of an occupied slot changes nothing else. -/
theorem replace (holds : Holds pending (before ++ (i, entry) :: after)) (other : ε) :
    Holds (pending.replace i other) (before ++ (i, other) :: after) where
  ascending := by simpa using holds.ascending
  occupied := by
    intro before' after' k entry' split
    have ascending := holds.split_ascending
    simp only [Pending.replace, Array.getElem?_modify]
    rcases split_cases split with ⟨middle, rfl, rfl⟩ | ⟨rfl, same, rfl⟩ | ⟨middle, rfl, rfl⟩
    · have earlier : k < i := ascending.1 k (by simp)
      rw [if_neg (Nat.ne_of_gt earlier),
        holds.occupied (List.append_assoc before' ((k, entry') :: middle) _)]
      simp [firstNumber_append_cons]
    · cases same
      rw [if_pos rfl, holds.occupied rfl]
      rfl
    · have later : i < k := ascending.2.1 k (by simp)
      rw [if_neg (Nat.ne_of_lt later),
        holds.occupied (List.append_assoc before ((i, entry) :: middle) _).symm]
      simp [lastNumber_append_cons]
  vacated := by
    intro k bounded absent
    simp only [Pending.replace, Array.size_modify] at bounded
    have elsewhere : i ≠ k := by
      rintro rfl
      exact absent (by simp)
    simp only [Pending.replace, Array.getElem?_modify, if_neg elsewhere]
    exact holds.vacated k bounded (by simpa using absent)
  first := by
    simpa [Pending.replace, firstNumber_append_cons] using holds.first
  last := by
    simpa [Pending.replace, lastNumber_append_cons] using holds.last
  count := by simpa [Pending.replace] using holds.count

/-- A slot other than the extracted one keeps its entry; of its links, those to
the extracted slot lead past it. -/
private theorem getElem?_bridged (slots : Array (Slot ε)) (before behind : Option Nat)
    {i k : Nat} (elsewhere : i ≠ k) :
    ((modifySlot
        (modifySlot slots before fun other => { other with behind := behind })
        behind fun other => { other with before := before }).modify i
      fun _ => Slot.vacant)[k]? =
      slots[k]?.map fun slot =>
        ⟨slot.entry, if behind = some k then before else slot.before,
          if before = some k then behind else slot.behind⟩ := by
  simp only [Array.getElem?_modify, if_neg elsewhere, getElem?_modifySlot]
  cases slots[k]? <;> split <;> split <;> simp_all

/-- Behind the extracted slot, only the link back to it changes. -/
private theorem occupied_after_extraction {middle : List (Nat × ε)} {k : Nat} {other : ε}
    (holds : Holds pending (before ++ (i, entry) :: (middle ++ (k, other) :: after))) :
    ((modifySlot
        (modifySlot pending.slots (lastNumber before) fun slot =>
          { slot with behind := firstNumber (middle ++ (k, other) :: after) })
        (firstNumber (middle ++ (k, other) :: after)) fun slot =>
          { slot with before := lastNumber before }).modify i fun _ => Slot.vacant)[k]? =
      some ⟨some other, lastNumber (before ++ middle), firstNumber after⟩ := by
  have atSlot : Holds pending ((before ++ (i, entry) :: middle) ++ (k, other) :: after) := by
    simpa using holds
  have smaller := atSlot.split_ascending.1
  have later : i < k := smaller i (by simp)
  have notBefore : lastNumber before ≠ some k := by
    intro last
    have := smaller k (by simp [mem_of_lastNumber last])
    omega
  rw [getElem?_bridged _ _ _ (Nat.ne_of_lt later), atSlot.occupied rfl, Option.map_some,
    if_neg notBefore]
  cases middle with
  | nil => simp
  | cons next middle =>
      have earlier : next.1 < k := smaller next.1 (by simp)
      have notNext : some next.1 ≠ some k := by simp; omega
      simp [notNext, lastNumber_append_cons, lastNumber_cons]

/-- Before the extracted slot, only the link forward to it changes. -/
private theorem occupied_before_extraction {middle : List (Nat × ε)} {k : Nat} {other : ε}
    (holds : Holds pending ((before ++ (k, other) :: middle) ++ (i, entry) :: after)) :
    ((modifySlot
        (modifySlot pending.slots (lastNumber (before ++ (k, other) :: middle)) fun slot =>
          { slot with behind := firstNumber after })
        (firstNumber after) fun slot =>
          { slot with before := lastNumber (before ++ (k, other) :: middle) }).modify i
        fun _ => Slot.vacant)[k]? =
      some ⟨some other, lastNumber before, firstNumber (middle ++ after)⟩ := by
  have atSlot : Holds pending (before ++ (k, other) :: (middle ++ (i, entry) :: after)) := by
    simpa using holds
  have larger := atSlot.split_ascending.2.1
  have earlier : k < i := larger i (by simp)
  have notBehind : firstNumber after ≠ some k := by
    intro first
    have := larger k (by simp [mem_of_firstNumber first])
    omega
  rw [getElem?_bridged _ _ _ (Nat.ne_of_gt earlier), atSlot.occupied rfl, Option.map_some,
    if_neg notBehind, lastNumber_append_cons]
  rcases List.eq_nil_or_concat' middle with rfl | ⟨init, final, rfl⟩
  · simp
  · have later : k < final.1 := larger final.1 (by simp)
    have notFinal : some final.1 ≠ some k := by simp; omega
    simp only [lastNumber_concat, Option.some_or, if_neg notFinal]
    cases init <;> simp

/-- Extracting the entry of an occupied slot removes the slot from the list. -/
theorem extract? (holds : Holds pending (before ++ (i, entry) :: after)) :
    ∃ rest, pending.extract? i = some (some entry, rest) ∧ Holds rest (before ++ after) := by
  have ascending := holds.split_ascending
  refine ⟨_, by rw [Pending.extract?, holds.occupied rfl]; rfl, ?_⟩
  constructor
  · exact holds.ascending.sublist (by simp)
  · intro before' after' k entry' split
    rcases List.append_eq_append_iff.mp split with ⟨middle, rfl, rfl⟩ | ⟨middle, rfl, rest⟩
    · exact occupied_after_extraction holds
    · cases middle with
      | nil =>
          simp only [List.nil_append] at rest
          subst after
          have adjacent :
              Holds pending ((before' ++ []) ++ (i, entry) :: ([] ++ (k, entry') :: after')) :=
            holds
          simpa using occupied_after_extraction adjacent
      | cons slot middle =>
          simp only [List.cons_append, List.cons.injEq] at rest
          rcases rest with ⟨rfl, rfl⟩
          exact occupied_before_extraction holds
  · intro k bounded absent
    simp only [Array.size_modify, size_modifySlot] at bounded
    by_cases here : i = k
    · subst k
      rw [Array.getElem?_modify, if_pos rfl, Array.getElem?_eq_getElem (by simpa using bounded)]
      rfl
    · have unlinked : ¬ k ∈ (before ++ (i, entry) :: after).map Prod.fst := by
        simp_all [Ne.symm here]
      have notLast : lastNumber before ≠ some k := fun last =>
        absent (by simp [mem_of_lastNumber last])
      have notFirst : firstNumber after ≠ some k := fun first =>
        absent (by simp [mem_of_firstNumber first])
      rw [getElem?_bridged _ _ _ here, holds.vacated k bounded unlinked, Option.map_some,
        if_neg notLast, if_neg notFirst]
  · have first := holds.first
    rcases before with _ | ⟨slot, before⟩
    · simp
    · have linked : lastNumber (slot :: before) ≠ none := by simp [lastNumber_cons]
      simpa [linked] using first
  · have last := holds.last
    cases after with
    | nil => simp
    | cons slot after => simpa [lastNumber_append_cons, lastNumber_cons] using last
  · have counted := holds.count
    simp only [List.length_append, List.length_cons] at counted ⊢
    omega

private theorem foldl_append (holds : Holds pending live) (entries : List ε) :
    ∃ added, Holds (entries.foldl Pending.append pending) (live ++ added) ∧
      added.map Prod.snd = entries := by
  induction entries generalizing pending live with
  | nil => exact ⟨[], by simpa using holds, rfl⟩
  | cons entry entries ih =>
      obtain ⟨added, grown, same⟩ := ih (holds.append entry)
      refine ⟨(pending.slots.size, entry) :: added, ?_, ?_⟩
      · simpa using grown
      · simp [same]

/-- A sequence of given entries holds these entries. -/
theorem ofList (entries : List ε) :
    ∃ live, Holds (Pending.ofList entries) live ∧ live.map Prod.snd = entries := by
  simpa [Pending.ofList] using foldl_append Holds.empty entries

end Holds

/-! ## The highest rank -/

/-- Among the entries of a list, the one between `before` and `after` has the
highest rank, and it is the first that has. -/
structure IsHighest (rank : ε → Option Int) (before : List ε) (entry : ε) (after : List ε)
    (highest : Int) : Prop where
  ranked : rank entry = some highest
  below : ∀ other ∈ before, ∀ found, rank other = some found → found < highest
  atMost : ∀ other ∈ after, ∀ found, rank other = some found → found ≤ highest

/-- The leader of a search that passes one more slot with an entry of some rank,
or without one. -/
def leader (best : Option (Nat × Int)) (i : Nat) (rank : Option Int) : Option (Nat × Int) :=
  match rank, best with
  | none, best => best
  | some found, none => some (i, found)
  | some found, some (j, leading) => if leading < found then some (i, found) else some (j, leading)

theorem highest?_eq_foldl_leader (pending : Pending ε) (rank : ε → Option Int) :
    pending.highest? rank =
      (pending.numbers.foldl (fun best i => leader best i ((pending.entry? i).bind rank))
        none).map Prod.fst :=
  rfl

/-- What a search knows of the slots it has passed. -/
def Surveyed (rank : ε → Option Int) (passed : List (Nat × ε)) : Option (Nat × Int) → Prop
  | none => ∀ slot ∈ passed, rank slot.2 = none
  | some (i, highest) =>
      ∃ before entry after, passed = before ++ (i, entry) :: after ∧
        IsHighest rank (before.map Prod.snd) entry (after.map Prod.snd) highest

/-- Passing one more slot keeps what the search knows true. -/
theorem Surveyed.step {rank : ε → Option Int} {passed : List (Nat × ε)}
    {best : Option (Nat × Int)} (surveyed : Surveyed rank passed best) (i : Nat) (entry : ε) :
    Surveyed rank (passed ++ [(i, entry)]) (leader best i (rank entry)) := by
  cases ranked : rank entry with
  | none =>
      cases best with
      | none =>
          simp only [leader, Surveyed, List.mem_append, List.mem_singleton] at surveyed ⊢
          rintro slot (member | rfl)
          · exact surveyed slot member
          · exact ranked
      | some leading =>
          rcases surveyed with ⟨before, leader, after, rfl, isHighest⟩
          refine ⟨before, leader, after ++ [(i, entry)], by simp, isHighest.ranked,
            isHighest.below, ?_⟩
          intro other member found otherRanked
          simp only [List.map_append, List.mem_append, List.map_singleton,
            List.mem_singleton] at member
          rcases member with member | rfl
          · exact isHighest.atMost other member found otherRanked
          · simp [ranked] at otherRanked
  | some found =>
      cases best with
      | none =>
          refine ⟨passed, entry, [], rfl, ranked, ?_, by simp⟩
          intro other member otherFound otherRanked
          rcases List.mem_map.mp member with ⟨slot, slotMem, rfl⟩
          simp [surveyed slot slotMem] at otherRanked
      | some leading =>
          rcases surveyed with ⟨before, leader, after, rfl, isHighest⟩
          simp only [Pending.leader]
          split
          · next overtaken =>
            refine ⟨_, entry, [], rfl, ranked, ?_, by simp⟩
            intro other member otherFound otherRanked
            simp only [List.map_append, List.map_cons, List.mem_append, List.mem_cons] at member
            rcases member with member | rfl | member
            · exact Int.lt_trans (isHighest.below other member _ otherRanked) overtaken
            · rw [isHighest.ranked] at otherRanked
              cases otherRanked
              exact overtaken
            · exact Int.lt_of_le_of_lt (isHighest.atMost other member _ otherRanked) overtaken
          · next notOvertaken =>
            refine ⟨before, leader, after ++ [(i, entry)], by simp, isHighest.ranked,
              isHighest.below, ?_⟩
            intro other member otherFound otherRanked
            simp only [List.map_append, List.mem_append, List.map_singleton,
              List.mem_singleton] at member
            rcases member with member | rfl
            · exact isHighest.atMost other member _ otherRanked
            · rw [ranked] at otherRanked
              cases otherRanked
              exact Int.not_lt.mp notOvertaken

namespace Holds

variable {pending : Pending ε} {live : List (Nat × ε)}

private theorem foldl_surveyed (rank : ε → Option Int) {passed rest : List (Nat × ε)}
    {best : Option (Nat × Int)} (holds : Holds pending (passed ++ rest))
    (surveyed : Surveyed rank passed best) :
    Surveyed rank (passed ++ rest)
      ((rest.map Prod.fst).foldl
        (fun best i => leader best i ((pending.entry? i).bind rank)) best) := by
  induction rest generalizing passed best with
  | nil => simpa using surveyed
  | cons slot rest ih =>
      have moved : Holds pending ((passed ++ [slot]) ++ rest) := by simpa using holds
      have next := ih moved (surveyed.step slot.1 slot.2)
      simp only [List.map_cons, List.foldl_cons, holds.entry?_eq, Option.bind_some]
      simpa using next

private theorem surveyed_all (holds : Holds pending live) (rank : ε → Option Int) :
    Surveyed rank live
      ((live.map Prod.fst).foldl
        (fun best i => leader best i ((pending.entry? i).bind rank)) none) := by
  have fromStart : Holds pending ([] ++ live) := holds
  have nothingPassed : Surveyed rank [] none := by simp [Surveyed]
  exact foldl_surveyed rank fromStart nothingPassed

/-- The slot that is found has the highest rank, the first of them on a tie. -/
theorem isHighest_of_highest? {rank : ε → Option Int} {i : Nat} (holds : Holds pending live)
    (found : pending.highest? rank = some i) :
    ∃ before entry after highest, live = before ++ (i, entry) :: after ∧
      IsHighest rank (before.map Prod.snd) entry (after.map Prod.snd) highest := by
  have surveyed := holds.surveyed_all rank
  rw [highest?_eq_foldl_leader, holds.numbers_eq] at found
  rcases Option.map_eq_some_iff.mp found with ⟨⟨_, highest⟩, best, rfl⟩
  rw [best] at surveyed
  rcases surveyed with ⟨before, entry, after, split, isHighest⟩
  exact ⟨before, entry, after, highest, split, isHighest⟩

/-- No slot is found only if no entry has a rank. -/
theorem rank_eq_none_of_highest? {rank : ε → Option Int} (holds : Holds pending live)
    (missing : pending.highest? rank = none) : ∀ entry ∈ live.map Prod.snd, rank entry = none := by
  have surveyed := holds.surveyed_all rank
  rw [highest?_eq_foldl_leader, holds.numbers_eq] at missing
  rw [Option.map_eq_none_iff.mp missing] at surveyed
  intro entry member
  rcases List.mem_map.mp member with ⟨slot, slotMem, rfl⟩
  exact surveyed slot slotMem

end Holds

end Fluxion.Pending
