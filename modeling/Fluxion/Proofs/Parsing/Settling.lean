import Fluxion.Parsing
import Fluxion.Proofs.Pending

/-!
# Parsing on a list

The slots and links of the parser's work list play no part in what it answers:
parsing is a process on the list of pending entries. In each step the first
token of the highest priority is reduced together with the entries next to it.
This file defines that process and shows that parsing is it, reductions and
faults included. Everything else about parsing is proved on lists.
-/

namespace Fluxion.Parsing

open Fluxion.Pending

variable {ν : Type}

/-! ## One step on a list -/

/-- Takes the operand on a side of a token, where the entries on that side are
listed from the nearest one. -/
def nearestOperand (side : Side) (token : Token) :
    List (Entry ν) → Except Fault (Expr ν Token × List (Entry ν))
  | [] => .error (.missingOperand side token)
  | .expr expr :: rest => .ok (expr, rest)
  | .token other :: _ => .error (.unexpectedToken other)

/-- Takes the parenthesis that closes a token. -/
def nearestClosing (token : Token) : List (Entry ν) → Except Fault (List (Entry ν))
  | [] => .error (.unclosedParen token)
  | .token ⟨.closeParen, _, _, _⟩ :: rest => .ok rest
  | entry :: _ => .error (.unclosedParen entry.source)

/-- Reduces a token between the entries before it, the nearest one first, and the
entries after it. The answer is the expression with what is left on both
sides. -/
def reduceBetween [Numeral ν] (before : List (Entry ν)) (token : Token)
    (after : List (Entry ν)) :
    Except Fault (Expr ν Token × List (Entry ν) × List (Entry ν)) :=
  match token.kind with
  | .operator => do
      let (left, before) ← nearestOperand .left token before
      let (right, after) ← nearestOperand .right token after
      match Operator.ofText? token.text with
      | some operator => .ok (.binary token operator left right, before, after)
      | none => .error (.unknownName token.text)
  | .openParen => do
      let (content, after) ← nearestOperand .right token after
      let after ← nearestClosing token after
      .ok (content.withMark token, before, after)
  | .function =>
      match Elementary.ofName? token.text with
      | some function => do
          let (argument, after) ← nearestOperand .right token after
          .ok (.apply token function argument, before, after)
      | none => .error (.unknownName token.text)
  | .identifier => .ok (.var token token.text, before, after)
  | .number =>
      match Numeral.read? token.text with
      | some value => .ok (.num token value, before, after)
      | none => .error (.unreadableNumber token.text)
  | .closeParen | .stray => .error (.unmatchedParen token)

/-- The first token of the highest priority, between what is before and what is
after it. -/
def select : List (Entry ν) → Option (List (Entry ν) × Token × List (Entry ν))
  | [] => none
  | .expr expr :: rest =>
      (select rest).map fun (before, token, after) => (.expr expr :: before, token, after)
  | .token first :: rest =>
      match select rest with
      | none => some ([], first, rest)
      | some (before, token, after) =>
          if first.priority < token.priority then some (.token first :: before, token, after)
          else some ([], first, rest)

/-- The answer when no token is left. -/
def verdict : List (Entry ν) → Except Fault (Expr ν Token)
  | [] => .error .emptyInput
  | [.expr expr] => .ok expr
  | [.token token] => .error (.unexpectedToken token)
  | entry :: _ :: _ => .error (.severalValues entry.source)

/-- Reduces the tokens of a list for at most `steps` steps. -/
def settle [Numeral ν] : Nat → List (Entry ν) → Parsing ν
  | 0, entries => ⟨[], verdict entries⟩
  | steps + 1, entries =>
      match select entries with
      | none => ⟨[], verdict entries⟩
      | some (before, token, after) =>
          match reduceBetween before.reverse token after with
          | .error fault => ⟨[], .error fault⟩
          | .ok (expr, before, after) =>
              let later := settle steps (before.reverse ++ .expr expr :: after)
              ⟨⟨token, expr⟩ :: later.reductions, later.outcome⟩

/-! ## What a step can do -/

/-- A token between its operands is reduced to an expression; the entries that are
left over come last. -/
inductive Reduces [Numeral ν] : List (Entry ν) → Token → List (Entry ν) →
    Expr ν Token → List (Entry ν) → List (Entry ν) → Prop
  | operator {token : Token} {symbol : Operator} {left right : Expr ν Token}
      {before after : List (Entry ν)} :
      token.kind = .operator → Operator.ofText? token.text = some symbol →
      Reduces (.expr left :: before) token (.expr right :: after)
        (.binary token symbol left right) before after
  | group {token closing : Token} {content : Expr ν Token} {before after : List (Entry ν)} :
      token.kind = .openParen → closing.kind = .closeParen →
      Reduces before token (.expr content :: .token closing :: after)
        (content.withMark token) before after
  | function {token : Token} {function : Elementary} {argument : Expr ν Token}
      {before after : List (Entry ν)} :
      token.kind = .function → Elementary.ofName? token.text = some function →
      Reduces before token (.expr argument :: after) (.apply token function argument) before after
  | identifier {token : Token} {before after : List (Entry ν)} : token.kind = .identifier →
      Reduces before token after (.var token token.text) before after
  | number {token : Token} {value : ν} {before after : List (Entry ν)} :
      token.kind = .number → Numeral.read? token.text = some value →
      Reduces before token after (.num token value) before after

theorem nearestOperand_eq_ok_iff {side : Side} {token : Token} {entries rest : List (Entry ν)}
    {expr : Expr ν Token} :
    nearestOperand side token entries = .ok (expr, rest) ↔ entries = .expr expr :: rest := by
  constructor
  · intro taken
    rcases entries with _ | ⟨_ | _, entries⟩ <;> cases taken
    rfl
  · rintro rfl
    rfl

theorem nearestClosing_eq_ok_iff {token : Token} {entries rest : List (Entry ν)} :
    nearestClosing token entries = .ok rest ↔
      ∃ closing, closing.kind = .closeParen ∧ entries = .token closing :: rest := by
  constructor
  · intro taken
    rcases entries with _ | ⟨⟨kind, text, column, priority⟩ | _, entries⟩
    · cases taken
    · cases kind <;> cases taken
      exact ⟨⟨.closeParen, text, column, priority⟩, rfl, rfl⟩
    · cases taken
  · rintro ⟨⟨_, text, column, priority⟩, rfl, rfl⟩
    rfl

theorem reduceBetween_eq_ok_iff [Numeral ν] {before after restBefore restAfter : List (Entry ν)}
    {token : Token} {expr : Expr ν Token} :
    reduceBetween before token after = .ok (expr, restBefore, restAfter) ↔
      Reduces before token after expr restBefore restAfter := by
  constructor
  · intro reduced
    unfold reduceBetween at reduced
    cases kind : token.kind with
    | operator =>
        simp only [kind, bind_eq_ok_iff, Prod.exists, nearestOperand_eq_ok_iff] at reduced
        rcases reduced with ⟨left, _, rfl, right, _, rfl, found⟩
        cases symbol : Operator.ofText? token.text with
        | none => simp [symbol] at found
        | some operator =>
            simp only [symbol, Except.ok.injEq, Prod.mk.injEq] at found
            rcases found with ⟨rfl, rfl, rfl⟩
            exact .operator kind symbol
    | openParen =>
        simp only [kind, bind_eq_ok_iff, Prod.exists, nearestOperand_eq_ok_iff,
          nearestClosing_eq_ok_iff] at reduced
        rcases reduced with ⟨content, _, rfl, _, ⟨closing, closingKind, rfl⟩, same⟩
        cases same
        exact .group kind closingKind
    | function =>
        simp only [kind] at reduced
        cases found : Elementary.ofName? token.text with
        | none => simp [found] at reduced
        | some function =>
            simp only [found, bind_eq_ok_iff, Prod.exists, nearestOperand_eq_ok_iff] at reduced
            rcases reduced with ⟨argument, _, rfl, same⟩
            cases same
            exact .function kind found
    | identifier =>
        simp only [kind] at reduced
        cases reduced
        exact .identifier kind
    | number =>
        simp only [kind] at reduced
        cases found : (Numeral.read? token.text : Option ν) with
        | none => simp [found] at reduced
        | some value =>
            simp only [found] at reduced
            cases reduced
            exact .number kind found
    | closeParen => simp [kind] at reduced
    | stray => simp [kind] at reduced
  · intro reduces
    unfold reduceBetween
    cases reduces with
    | operator kind found => simp only [kind, found]; rfl
    | @group _ closing _ _ _ kind closingKind =>
        have closed : nearestClosing token (.token closing :: restAfter) = .ok restAfter :=
          nearestClosing_eq_ok_iff.mpr ⟨closing, closingKind, rfl⟩
        simp only [kind, bind_eq_ok_iff, Prod.exists, nearestOperand_eq_ok_iff]
        exact ⟨_, _, rfl, restAfter, closed, rfl⟩
    | function kind found => simp only [kind, found]; rfl
    | identifier kind => simp only [kind]
    | number kind found => simp only [kind, found]

/-! ## Selecting a token -/

/-- A token outranks the tokens before it and is not outranked by those after
it. -/
structure Leads (before : List (Entry ν)) (token : Token) (after : List (Entry ν)) : Prop where
  below : ∀ other, Entry.token other ∈ before → other.priority < token.priority
  atMost : ∀ other, Entry.token other ∈ after → other.priority ≤ token.priority

theorem select_eq_none_iff {entries : List (Entry ν)} :
    select entries = none ↔ ∀ token, Entry.token token ∉ entries := by
  induction entries with
  | nil => simp [select]
  | cons entry rest ih =>
      cases entry with
      | expr expr => simp [select, ih]
      | token first =>
          constructor
          · intro missing
            cases chosen : select rest <;> simp only [select, chosen] at missing
            · cases missing
            · split at missing <;> cases missing
          · intro absent
            exact absurd (by simp) (absent first)

private theorem eq_append_of_select {entries before after : List (Entry ν)} {token : Token}
    (selected : select entries = some (before, token, after)) :
    entries = before ++ .token token :: after ∧ Leads before token after := by
  induction entries generalizing before token after with
  | nil => cases selected
  | cons entry rest ih =>
      cases entry with
      | expr expr =>
          simp only [select, Option.map_eq_some_iff] at selected
          rcases selected with ⟨⟨before, _, _⟩, found, same⟩
          cases same
          rcases ih found with ⟨rfl, leads⟩
          refine ⟨rfl, ?_, leads.atMost⟩
          intro other member
          exact leads.below other (by simpa using member)
      | token first =>
          simp only [select] at selected
          split at selected
          · next missing =>
            cases selected
            refine ⟨rfl, by simp, ?_⟩
            intro other member
            exact absurd member (select_eq_none_iff.mp missing other)
          · next found =>
            rcases ih found with ⟨rfl, leads⟩
            split at selected
            · next overtaken =>
              cases selected
              refine ⟨rfl, ?_, leads.atMost⟩
              intro other member
              rcases List.mem_cons.mp member with same | member
              · cases same
                exact overtaken
              · exact leads.below other member
            · next notOvertaken =>
              cases selected
              refine ⟨rfl, by simp, ?_⟩
              intro other member
              have highest := Int.not_lt.mp notOvertaken
              rcases List.mem_append.mp member with member | member
              · exact Int.le_trans (Int.le_of_lt (leads.below other member)) highest
              · rcases List.mem_cons.mp member with same | member
                · cases same
                  exact highest
                · exact Int.le_trans (leads.atMost other member) highest

/-- At most one token of a list leads it. -/
theorem Leads.unique {before before' after after' : List (Entry ν)} {token token' : Token}
    (leads : Leads before token after) (leads' : Leads before' token' after')
    (same : before ++ .token token :: after = before' ++ .token token' :: after') :
    before = before' ∧ token = token' ∧ after = after' := by
  rcases List.append_eq_append_iff.mp same with ⟨middle, rfl, rest⟩ | ⟨middle, rfl, rest⟩
  · cases middle with
    | nil => simp_all
    | cons entry middle =>
        simp only [List.cons_append, List.cons.injEq] at rest
        rcases rest with ⟨rfl, rfl⟩
        have earlier := leads'.below token (by simp)
        have later := leads.atMost token' (by simp)
        exact absurd later (Int.not_le.mpr earlier)
  · cases middle with
    | nil => simp_all
    | cons entry middle =>
        simp only [List.cons_append, List.cons.injEq] at rest
        rcases rest with ⟨rfl, rfl⟩
        have earlier := leads.below token' (by simp)
        have later := leads'.atMost token (by simp)
        exact absurd later (Int.not_le.mpr earlier)

/-- The selected token is the one that leads the list. -/
theorem select_eq_some_iff {entries before after : List (Entry ν)} {token : Token} :
    select entries = some (before, token, after) ↔
      entries = before ++ .token token :: after ∧ Leads before token after := by
  constructor
  · exact eq_append_of_select
  · rintro ⟨rfl, leads⟩
    cases chosen : select (before ++ .token token :: after) with
    | none => exact absurd (by simp) (select_eq_none_iff.mp chosen token)
    | some selected =>
        rcases selected with ⟨before', token', after'⟩
        obtain ⟨same, leads'⟩ := eq_append_of_select chosen
        rcases leads.unique leads' same with ⟨rfl, rfl, rfl⟩
        rfl

/-! ## The work list is the list -/

/-- A work list has the token of slot `i` between the entries `before`, the
nearest one first, and the entries `after`. -/
def HoldsAround (pending : Pending (Entry ν)) (i : Nat) (before : List (Entry ν))
    (token : Token) (after : List (Entry ν)) : Prop :=
  ∃ left right, Holds pending (left ++ (i, .token token) :: right) ∧
    (left.map Prod.snd).reverse = before ∧ right.map Prod.snd = after

/-- Two computations fail with the same fault, or have answers that are related. -/
def Agrees {α β : Type} (related : α → β → Prop) : Except Fault α → Except Fault β → Prop
  | .error fault, .error fault' => fault = fault'
  | .ok answer, .ok answer' => related answer answer'
  | _, _ => False

theorem Agrees.bind {α β α' β' : Type} {related : α → β → Prop} {related' : α' → β' → Prop}
    {first : Except Fault α} {first' : Except Fault β} {next : α → Except Fault α'}
    {next' : β → Except Fault β'} (agrees : Agrees related first first')
    (agreesNext : ∀ answer answer', related answer answer' →
      Agrees related' (next answer) (next' answer')) :
    Agrees related' (first >>= next) (first' >>= next') := by
  cases first <;> cases first'
  · exact agrees
  · exact agrees.elim
  · exact agrees.elim
  · exact agreesNext _ _ agrees

theorem Agrees.error_or_ok {α β : Type} {related : α → β → Prop} {first : Except Fault α}
    {second : Except Fault β} (agrees : Agrees related first second) :
    (∃ fault, first = .error fault ∧ second = .error fault) ∨
      ∃ answer answer', first = .ok answer ∧ second = .ok answer' ∧ related answer answer' := by
  cases first with
  | error fault =>
      cases second with
      | error fault' => exact Or.inl ⟨fault, rfl, congrArg Except.error agrees.symm⟩
      | ok answer' => exact agrees.elim
  | ok answer =>
      cases second with
      | error fault' => exact agrees.elim
      | ok answer' => exact Or.inr ⟨answer, answer', rfl, rfl, agrees⟩

variable {pending : Pending (Entry ν)} {i : Nat} {token : Token} {before after : List (Entry ν)}

theorem takeOperand_left (around : HoldsAround pending i before token after) :
    Agrees (fun (expr, rest) (expr', before) =>
        expr = expr' ∧ HoldsAround rest i before token after)
      (takeOperand pending i token .left) (nearestOperand .left token before) := by
  rcases around with ⟨left, right, holds, rfl, rfl⟩
  rcases List.eq_nil_or_concat' left with rfl | ⟨left, ⟨j, entry⟩, rfl⟩
  · simp [takeOperand, Side.neighbour?, holds.before?_eq, nearestOperand, Agrees]
  · have nearest : Holds pending (left ++ (j, entry) :: ((i, .token token) :: right)) := by
      simpa using holds
    rcases nearest.extract? with ⟨rest, extracted, remains⟩
    have linked : pending.before? i = some j := by
      rw [holds.before?_eq]
      simp
    cases entry with
    | expr expr =>
        simp only [takeOperand, Side.neighbour?, linked, Option.bind_some, extracted,
          List.map_append, List.reverse_append]
        exact ⟨rfl, left, right, remains, rfl, rfl⟩
    | token other => simp [takeOperand, Side.neighbour?, linked, extracted, nearestOperand, Agrees]

theorem takeOperand_right (around : HoldsAround pending i before token after) :
    Agrees (fun (expr, rest) (expr', after) =>
        expr = expr' ∧ HoldsAround rest i before token after)
      (takeOperand pending i token .right) (nearestOperand .right token after) := by
  rcases around with ⟨left, right, holds, rfl, rfl⟩
  rcases right with _ | ⟨⟨j, entry⟩, right⟩
  · simp [takeOperand, Side.neighbour?, holds.behind?_eq, nearestOperand, Agrees]
  · have nearest : Holds pending ((left ++ [(i, .token token)]) ++ (j, entry) :: right) := by
      simpa using holds
    rcases nearest.extract? with ⟨rest, extracted, remains⟩
    have linked : pending.behind? i = some j := holds.behind?_eq
    cases entry with
    | expr expr =>
        simp only [takeOperand, Side.neighbour?, linked, Option.bind_some, extracted,
          List.map_cons]
        exact ⟨rfl, left, right, by simpa using remains, rfl, rfl⟩
    | token other => simp [takeOperand, Side.neighbour?, linked, extracted, nearestOperand, Agrees]

theorem takeClosing_agrees (around : HoldsAround pending i before token after) :
    Agrees (fun rest after => HoldsAround rest i before token after)
      (takeClosing pending i token) (nearestClosing token after) := by
  rcases around with ⟨left, right, holds, rfl, rfl⟩
  rcases right with _ | ⟨⟨j, entry⟩, right⟩
  · simp [takeClosing, holds.behind?_eq, nearestClosing, Agrees]
  · have nearest : Holds pending ((left ++ [(i, .token token)]) ++ (j, entry) :: right) := by
      simpa using holds
    rcases nearest.extract? with ⟨rest, extracted, remains⟩
    have linked : pending.behind? i = some j := holds.behind?_eq
    have around : HoldsAround rest i (left.map Prod.snd).reverse token (right.map Prod.snd) :=
      ⟨left, right, by simpa using remains, rfl, rfl⟩
    rcases entry with ⟨kind, _, _, _⟩ | expr
    · cases kind <;> simp [takeClosing, linked, extracted, nearestClosing, Agrees, around]
    · simp [takeClosing, linked, extracted, nearestClosing, Agrees]

/-- Reducing a token in a slot is reducing it between the entries around it. -/
theorem reduce_agrees [Numeral ν] (around : HoldsAround pending i before token after) :
    Agrees (fun (expr, rest) (expr', before, after) =>
        expr = expr' ∧ HoldsAround rest i before token after)
      (reduce pending i token) (reduceBetween before token after) := by
  unfold reduce reduceBetween
  cases token.kind with
  | operator =>
      refine (takeOperand_left around).bind ?_
      rintro ⟨left, rest⟩ ⟨_, before⟩ ⟨rfl, around⟩
      refine (takeOperand_right around).bind ?_
      rintro ⟨right, rest⟩ ⟨_, after⟩ ⟨rfl, around⟩
      cases Operator.ofText? token.text with
      | none => exact rfl
      | some operator => exact ⟨rfl, around⟩
  | openParen =>
      refine (takeOperand_right around).bind ?_
      rintro ⟨content, rest⟩ ⟨_, after⟩ ⟨rfl, around⟩
      refine (takeClosing_agrees around).bind ?_
      rintro rest after around
      exact ⟨rfl, around⟩
  | function =>
      cases Elementary.ofName? token.text with
      | none => exact rfl
      | some function =>
          refine (takeOperand_right around).bind ?_
          rintro ⟨argument, rest⟩ ⟨_, after⟩ ⟨rfl, around⟩
          exact ⟨rfl, around⟩
  | identifier => exact ⟨rfl, around⟩
  | number =>
      cases (Numeral.read? token.text : Option ν) with
      | none => exact rfl
      | some value => exact ⟨rfl, around⟩
  | closeParen => exact rfl
  | stray => exact rfl

theorem finish_eq_verdict {live : List (Nat × Entry ν)} (holds : Holds pending live) :
    finish pending = verdict (live.map Prod.snd) := by
  rcases live with _ | ⟨⟨i, entry⟩, live⟩
  · simp [finish, holds.first, verdict]
  · have atFirst : Holds pending ([] ++ (i, entry) :: live) := holds
    have found := atFirst.entry?_eq
    simp only [finish, holds.first, firstNumber_cons, Option.bind_some, found, holds.count,
      List.map_cons, List.length_cons]
    cases live with
    | nil => cases entry <;> simp [verdict]
    | cons slot live =>
        have several : (1 : Int) < ((slot :: live).length + 1 : Nat) := by
          rw [List.length_cons]
          omega
        rw [if_pos several]
        cases entry <;> rfl

theorem leads_of_isHighest {before after : List (Entry ν)} {token : Token} {highest : Int}
    (top : IsHighest Entry.rank before (.token token) after highest) :
    Leads before token after := by
  have same : token.priority = highest := Option.some.inj top.ranked
  constructor
  · intro other member
    rw [same]
    exact top.below _ member _ rfl
  · intro other member
    rw [same]
    exact top.atMost _ member _ rfl

theorem reduceAll_eq_settle [Numeral ν] (steps : Nat) {live : List (Nat × Entry ν)}
    (holds : Holds pending live) :
    reduceAll steps pending = settle steps (live.map Prod.snd) := by
  induction steps generalizing pending live with
  | zero => simp [reduceAll, settle, finish_eq_verdict holds]
  | succ steps ih =>
      rw [reduceAll, settle]
      cases found : pending.highest? Entry.rank with
      | none =>
          have unranked := holds.rank_eq_none_of_highest? found
          have missing : select (live.map Prod.snd) = none := by
            refine select_eq_none_iff.mpr ?_
            intro token member
            have := unranked _ member
            simp [Entry.rank] at this
          simp [missing, finish_eq_verdict holds]
      | some i =>
          rcases holds.isHighest_of_highest? found with ⟨left, entry, right, highest, rfl, top⟩
          rcases entry with token | expr
          · have selected :
                select ((left ++ (i, .token token) :: right).map Prod.snd) =
                  some (left.map Prod.snd, token, right.map Prod.snd) := by
              rw [select_eq_some_iff]
              refine ⟨by simp, leads_of_isHighest top⟩
            have around : HoldsAround pending i (left.map Prod.snd).reverse token
                (right.map Prod.snd) := ⟨left, right, holds, rfl, rfl⟩
            rw [selected]
            dsimp only
            rw [holds.entry?_eq]
            dsimp only
            rcases (reduce_agrees around).error_or_ok with ⟨fault, onSlots, onList⟩ |
              ⟨⟨expr, rest⟩, ⟨_, before, after⟩, onSlots, onList, rfl, left', right', remains, rfl,
                rfl⟩
            · rw [onSlots, onList]
            · rw [onSlots, onList]
              dsimp only
              rw [ih (remains.replace (.expr expr))]
              simp
          · have := top.ranked
            simp [Entry.rank] at this

/-- Parsing by means of a work list is parsing on a list. -/
theorem ofTokens_eq_settle [Numeral ν] (tokens : List Token) :
    (ofTokens tokens : Parsing ν) = settle tokens.length (tokens.map .token) := by
  obtain ⟨live, holds, same⟩ := Holds.ofList (tokens.map (Entry.token (ν := ν)))
  rw [ofTokens, reduceAll_eq_settle _ holds, same]

/-- What `x*x` says. -/
def square : Expr ν Token :=
  .binary ⟨.operator, "*", 2, 2⟩ .mul (.var ⟨.identifier, "x", 1, 4⟩ "x")
    (.var ⟨.identifier, "x", 3, 4⟩ "x")

theorem read_square [Numeral ν] : Expr.read "x*x" = .ok (square : Expr ν Token) := by
  have lexes : (Lexed.ofSource "x*x").prioritized =
      .ok [⟨.identifier, "x", 1, 4⟩, ⟨.operator, "*", 2, 2⟩, ⟨.identifier, "x", 3, 4⟩] := by
    decide +kernel
  have times : Operator.ofText? "*" = some .mul := by decide +kernel
  rw [Expr.read, ofSource, lexes]
  dsimp only
  rw [ofTokens_eq_settle]
  simp [square, settle, select, reduceBetween, nearestOperand, times, bind, Except.bind, verdict]

end Fluxion.Parsing
