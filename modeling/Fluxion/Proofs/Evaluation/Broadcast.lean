import Fluxion.Proofs.Evaluation.Assignment
import Fluxion.Proofs.Evaluation.FirstFault

/-!
# Vectors among the arguments

Whether an expression has a value, and of which shape, depends on its arguments and on
nothing else, not on how the expression is put together nor on what its nodes share. Every
variable is below the root, so the root feels the length of every argument: it is a vector
of the length that all of them but scalars and vectors of length one have, and there is no
value if there are two such lengths. The elements of this vector are the values at the
elements of the arguments.
-/

namespace Fluxion

variable {ν μ ρ α : Type}

namespace Value

/-! ## Combining vectors -/

theorem zipVectors_cases (f : ν → μ → ρ) (xs : List ν) (ys : List μ) :
    (xs.length = ys.length ∧ zipVectors f xs ys = .ok (List.zipWith f xs ys)) ∨
      (∃ x, xs = [x] ∧ zipVectors f xs ys = .ok (ys.map (f x))) ∨
      (∃ y, ys = [y] ∧ zipVectors f xs ys = .ok (xs.map (f · y))) ∨
      xs.length ≠ ys.length ∧ xs.length ≠ 1 ∧ ys.length ≠ 1 ∧
        zipVectors f xs ys = .error (.lengthMismatch xs.length ys.length) := by
  by_cases same : xs.length = ys.length
  · exact Or.inl ⟨same, if_pos same⟩
  · refine Or.inr ?_
    unfold zipVectors
    rw [if_neg same]
    by_cases single : xs.length = 1
    · obtain ⟨x, rfl⟩ := List.length_eq_one_iff.mp single
      exact Or.inl ⟨x, rfl, rfl⟩
    · by_cases single' : ys.length = 1
      · obtain ⟨y, rfl⟩ := List.length_eq_one_iff.mp single'
        refine Or.inr (Or.inl ⟨y, rfl, ?_⟩)
        split
        · exact absurd rfl single
        · next _ _ _ last =>
          cases last
          rfl
        · next _ _ _ noSingle => exact absurd rfl (noSingle y)
      · refine Or.inr (Or.inr ⟨same, single, single', ?_⟩)
        split
        · exact absurd rfl single
        · exact absurd rfl single'
        · rfl

/-- The number that a value contributes to the element at a place: the only one of a scalar or
of a vector of length one, and otherwise the one at this place. -/
def element? (i : Nat) : Value ν → Option ν
  | scalar x => some x
  | vector xs => xs[if xs.length = 1 then 0 else i]?

/-- The value with the number at a place for all of it, if there is one. -/
def elementAt (i : Nat) (value : Value ν) : Value ν :=
  match value.element? i with
  | some x => scalar x
  | none => value

theorem element?_of_getElem? {xs : List ν} {i : Nat} {x : ν} (element : xs[i]? = some x) :
    (vector xs).element? i = some x := by
  have inside := (List.getElem?_eq_some_iff.mp element).1
  rw [element?]
  by_cases single : xs.length = 1
  · have first : i = 0 := by omega
    rw [if_pos single, ← first]
    exact element
  · rw [if_neg single]
    exact element

theorem element?_map (f : ν → μ) (i : Nat) (value : Value ν) :
    (value.map f).element? i = (value.element? i).map f := by
  cases value with
  | scalar x => rfl
  | vector xs => rw [map, element?, List.length_map, List.getElem?_map, element?]

/-- Elements are combined with the elements at their places. -/
theorem element?_zip {f : ν → μ → ρ} {left : Value ν} {right : Value μ} {value : Value ρ} {i : Nat}
    {z : ρ} (zipped : left.zip f right = .ok value) (element : value.element? i = some z) :
    ∃ x y, left.element? i = some x ∧ right.element? i = some y ∧ z = f x y := by
  cases left with
  | scalar x =>
      cases right with
      | scalar y =>
          cases zipped
          cases element
          exact ⟨x, y, rfl, rfl, rfl⟩
      | vector ys =>
          cases zipped
          rw [element?, List.length_map, List.getElem?_map, Option.map_eq_some_iff] at element
          obtain ⟨y, found, rfl⟩ := element
          exact ⟨x, y, rfl, found, rfl⟩
  | vector xs =>
      cases right with
      | scalar y =>
          cases zipped
          rw [element?, List.length_map, List.getElem?_map, Option.map_eq_some_iff] at element
          obtain ⟨x, found, rfl⟩ := element
          exact ⟨x, y, found, rfl, rfl⟩
      | vector ys =>
          rw [zip] at zipped
          rcases zipVectors_cases f xs ys with
            ⟨same, combined⟩ | ⟨x, rfl, combined⟩ | ⟨y, rfl, combined⟩ | ⟨_, _, _, refused⟩
          · rw [combined] at zipped
            cases zipped
            rw [element?, List.length_zipWith, ← same, Nat.min_self,
              List.getElem?_zipWith_eq_some] at element
            obtain ⟨x, y, foundX, foundY, rfl⟩ := element
            refine ⟨x, y, foundX, ?_, rfl⟩
            rwa [element?, ← same]
          · rw [combined] at zipped
            cases zipped
            rw [element?, List.length_map, List.getElem?_map, Option.map_eq_some_iff] at element
            obtain ⟨y, found, rfl⟩ := element
            exact ⟨x, y, rfl, found, rfl⟩
          · rw [combined] at zipped
            cases zipped
            rw [element?, List.length_map, List.getElem?_map, Option.map_eq_some_iff] at element
            obtain ⟨x, found, rfl⟩ := element
            exact ⟨x, y, found, rfl, rfl⟩
          · rw [refused] at zipped
            cases zipped

end Value

/-! ## Shapes -/

/-- What comes of some values: a scalar of scalars, a vector of vectors of its length among
scalars and vectors of length one, or nothing of vectors that do not fit together. -/
inductive Outcome (bound : List (Value ν)) : Except Fault (Value μ) → Prop
  | scalar {x : μ} : (∀ ys, .vector ys ∉ bound) → Outcome bound (.ok (.scalar x))
  | vector {xs : List μ} :
      (∀ ys, .vector ys ∈ bound → ys.length = xs.length ∨ ys.length = 1) →
      (∃ ys, .vector ys ∈ bound ∧ ys.length = xs.length) → Outcome bound (.ok (.vector xs))
  | mismatch {xs ys : List ν} : .vector xs ∈ bound → .vector ys ∈ bound →
      xs.length ≠ ys.length → xs.length ≠ 1 → ys.length ≠ 1 →
      Outcome bound (.error (.lengthMismatch xs.length ys.length))

namespace Outcome

variable {bound bound' : List (Value ν)}

theorem congr {result : Except Fault (Value μ)} (outcome : Outcome bound result)
    (same : ∀ value, value ∈ bound ↔ value ∈ bound') : Outcome bound' result := by
  cases outcome with
  | scalar none => exact .scalar fun ys member => none ys ((same _).mpr member)
  | vector fits held =>
      obtain ⟨ys, member, long⟩ := held
      exact .vector (fun zs member => fits zs ((same _).mpr member)) ⟨ys, (same _).mp member, long⟩
  | mismatch first second apart long long' =>
      exact .mismatch ((same _).mp first) ((same _).mp second) apart long long'

theorem map {result : Except Fault (Value μ)} (outcome : Outcome bound result) (f : μ → ρ) :
    Outcome bound (result >>= fun value => .ok (value.map f)) := by
  cases outcome with
  | scalar none => exact .scalar none
  | vector fits held => exact .vector (by simpa using fits) (by simpa using held)
  | mismatch first second apart long long' => exact .mismatch first second apart long long'

theorem zipVectors {xs ys : List μ} (outcome : Outcome bound (.ok (.vector xs)))
    (outcome' : Outcome bound' (.ok (.vector ys))) (f : μ → μ → ρ) :
    Outcome (bound ++ bound') ((Value.vector xs).zip f (Value.vector ys)) := by
  cases outcome with
  | vector fits held =>
  cases outcome' with
  | vector fits' held' =>
  obtain ⟨us, member, long⟩ := held
  obtain ⟨vs, member', long'⟩ := held'
  rw [Value.zip]
  rcases Value.zipVectors_cases f xs ys with
    ⟨same, combined⟩ | ⟨x, rfl, combined⟩ | ⟨y, rfl, combined⟩ | ⟨apart, notOne, notOne', refused⟩
  · rw [combined]
    refine .vector ?_ ⟨us, List.mem_append_left _ member, by simp [long, same]⟩
    intro zs inBound
    rw [List.length_zipWith, ← same, Nat.min_self]
    rcases List.mem_append.mp inBound with inBound | inBound
    · exact fits zs inBound
    · rw [same]
      exact fits' zs inBound
  · rw [combined]
    refine .vector ?_ ⟨vs, List.mem_append_right _ member', by simp [long']⟩
    intro zs inBound
    rw [List.length_map]
    rcases List.mem_append.mp inBound with inBound | inBound
    · exact Or.inr ((or_self _).mp (fits zs inBound))
    · exact fits' zs inBound
  · rw [combined]
    refine .vector ?_ ⟨us, List.mem_append_left _ member, by simp [long]⟩
    intro zs inBound
    rw [List.length_map]
    rcases List.mem_append.mp inBound with inBound | inBound
    · exact fits zs inBound
    · exact Or.inr ((or_self _).mp (fits' zs inBound))
  · rw [← long, ← long'] at apart
    rw [← long] at notOne
    rw [← long'] at notOne'
    rw [refused, ← long, ← long']
    exact .mismatch (List.mem_append_left _ member) (List.mem_append_right _ member') apart notOne
      notOne'

/-- What comes of two operands together comes of the values of both. -/
theorem zip {result result' : Except Fault (Value μ)} (outcome : Outcome bound result)
    (outcome' : Outcome bound' result') (f : μ → μ → ρ) :
    Outcome (bound ++ bound') (result >>= fun x => result' >>= fun y => x.zip f y) := by
  cases outcome with
  | mismatch first second apart long long' =>
      exact .mismatch (List.mem_append_left _ first) (List.mem_append_left _ second) apart long
        long'
  | @scalar x none =>
      cases outcome' with
      | mismatch first second apart long long' =>
          exact .mismatch (List.mem_append_right _ first) (List.mem_append_right _ second) apart
            long long'
      | scalar none' => exact .scalar (by simp [none, none'])
      | vector fits held => exact .vector (by simpa [none] using fits) (by simpa [none] using held)
  | @vector xs fits held =>
      cases outcome' with
      | mismatch first second apart long long' =>
          exact .mismatch (List.mem_append_right _ first) (List.mem_append_right _ second) apart
            long long'
      | scalar none => exact .vector (by simpa [none] using fits) (by simpa [none] using held)
      | vector fits' held' => exact (Outcome.vector fits held).zipVectors (.vector fits' held') f

theorem exists_mismatch {fault : Fault}
    (outcome : Outcome bound (.error fault : Except Fault (Value μ))) :
    ∃ xs ys, .vector xs ∈ bound ∧ .vector ys ∈ bound ∧ xs.length ≠ ys.length ∧ xs.length ≠ 1 ∧
      ys.length ≠ 1 ∧ fault = .lengthMismatch xs.length ys.length := by
  cases outcome with
  | mismatch first second apart long long' =>
      exact ⟨_, _, first, second, apart, long, long', rfl⟩

/-- Nothing comes of values exactly if two vectors among them do not fit together. -/
theorem error_iff {result : Except Fault (Value μ)} (outcome : Outcome bound result) :
    (∃ fault, result = .error fault) ↔
      ∃ xs ys, .vector xs ∈ bound ∧ .vector ys ∈ bound ∧
        xs.length ≠ ys.length ∧ xs.length ≠ 1 ∧ ys.length ≠ 1 := by
  constructor
  · rintro ⟨fault, rfl⟩
    obtain ⟨xs, ys, first, second, apart, long, long', _⟩ := outcome.exists_mismatch
    exact ⟨xs, ys, first, second, apart, long, long'⟩
  · rintro ⟨xs, ys, first, second, apart, long, long'⟩
    cases outcome with
    | mismatch _ _ _ _ _ => exact ⟨_, rfl⟩
    | scalar none => exact absurd first (none xs)
    | vector fits _ =>
        have fitsFirst := fits xs first
        have fitsSecond := fits ys second
        omega

theorem exists_scalar {result : Except Fault (Value μ)} (outcome : Outcome bound result)
    (none : ∀ ys, .vector ys ∉ bound) : ∃ x, result = .ok (.scalar x) := by
  cases outcome with
  | scalar _ => exact ⟨_, rfl⟩
  | vector _ held => exact absurd held.choose_spec.1 (none _)
  | mismatch first _ _ _ _ => exact absurd first (none _)

theorem error_or_exists_vector {result : Except Fault (Value μ)} (outcome : Outcome bound result)
    {zs : List ν} (member : .vector zs ∈ bound) :
    (∃ fault, result = .error fault) ∨ ∃ xs, result = .ok (.vector xs) ∧
      (∀ ys, .vector ys ∈ bound → ys.length = xs.length ∨ ys.length = 1) ∧
      ∃ ys, .vector ys ∈ bound ∧ ys.length = xs.length := by
  cases outcome with
  | scalar none => exact absurd member (none zs)
  | vector fits held => exact Or.inr ⟨_, rfl, fits, held⟩
  | mismatch _ _ _ _ _ => exact Or.inl ⟨_, rfl⟩

end Outcome

/-! ## Expressions -/

section Evaluation

variable [Arithmetic ν] {environment environment' : String → Option (Value ν)}

theorem Expr.evaluate_var_eq_ok_iff {mark : α} {name : String} {value : Value ν} :
    (var mark name : Expr ν α).evaluate environment = .ok value ↔
      environment name = some value := by
  rw [evaluate]
  cases environment name <;> simp

theorem Expr.evaluate_binary_eq_ok_iff {mark : α} {operator : Operator} {left right : Expr ν α}
    {value : Value ν} : (binary mark operator left right).evaluate environment = .ok value ↔
      ∃ u v, left.evaluate environment = .ok u ∧ right.evaluate environment = .ok v ∧
        u.zip (Arithmetic.operate operator) v = .ok value := by
  simp only [evaluate, bind_eq_ok_iff, exists_and_left]

theorem Expr.evaluate_apply_eq_ok_iff {mark : α} {function : Elementary} {argument : Expr ν α}
    {value : Value ν} : (apply mark function argument).evaluate environment = .ok value ↔
      ∃ u, argument.evaluate environment = .ok u ∧ u.map (Arithmetic.apply function) = value := by
  simp only [evaluate, bind_eq_ok_iff, Except.ok.injEq]

/-- What comes of an expression whose variables have values comes of these values. -/
theorem Expr.outcome_evaluate {expr : Expr ν α}
    (bound : ∀ name ∈ expr.names, ∃ value, environment name = some value) :
    Outcome (expr.names.filterMap environment) (expr.evaluate environment) := by
  induction expr with
  | num _ x => exact .scalar (by simp [names])
  | var _ name =>
      obtain ⟨value, found⟩ := bound name (by simp [names])
      have only : [name].filterMap environment = [value] := by
        rw [List.filterMap_cons_some found, List.filterMap_nil]
      rw [evaluate, names, only, found]
      cases value with
      | scalar x => exact .scalar (by simp)
      | vector xs => exact .vector (by simp) ⟨xs, List.mem_singleton_self _, rfl⟩
  | binary _ operator left right left_ih right_ih =>
      rw [names, List.filterMap_append]
      exact (left_ih fun name member => bound name (by simp [names, member])).zip
        (right_ih fun name member => bound name (by simp [names, member])) _
  | apply _ function argument ih => exact (ih bound).map _

/-- The elements of a value are the values at the elements. -/
theorem Expr.evaluate_element {i : Nat} {expr : Expr ν α}
    (elements : ∀ name ∈ expr.names, ∀ value x, environment name = some value →
      value.element? i = some x → environment' name = some (.scalar x))
    {value : Value ν} (evaluates : expr.evaluate environment = .ok value) {x : ν}
    (element : value.element? i = some x) : expr.evaluate environment' = .ok (.scalar x) := by
  induction expr generalizing value x with
  | num _ y =>
      cases evaluates
      cases element
      rfl
  | var _ name =>
      have found := evaluate_var_eq_ok_iff.mp evaluates
      exact evaluate_var_eq_ok_iff.mpr (elements name (by simp [names]) value x found element)
  | binary _ operator left right left_ih right_ih =>
      obtain ⟨u, v, leftValue, rightValue, combined⟩ := evaluate_binary_eq_ok_iff.mp evaluates
      obtain ⟨y, z, leftElement, rightElement, rfl⟩ := Value.element?_zip combined element
      have left := left_ih (fun name member => elements name (by simp [names, member])) leftValue
        leftElement
      have right := right_ih (fun name member => elements name (by simp [names, member]))
        rightValue rightElement
      exact evaluate_binary_eq_ok_iff.mpr ⟨_, _, left, right, rfl⟩
  | apply _ function argument ih =>
      obtain ⟨u, argumentValue, rfl⟩ := evaluate_apply_eq_ok_iff.mp evaluates
      rw [Value.element?_map, Option.map_eq_some_iff] at element
      obtain ⟨y, argumentElement, rfl⟩ := element
      exact evaluate_apply_eq_ok_iff.mpr ⟨_, ih elements argumentValue argumentElement, rfl⟩

end Evaluation

namespace Dag

/-! ## Arguments -/

/-- A name has the argument at its place. -/
theorem environmentOf_eq_some_iff {names : List String} (distinct : names.Nodup)
    {arguments : List (Value ν)} {name : String} {value : Value ν} :
    environmentOf names arguments name = some value ↔
      ∃ k : Nat, names[k]? = some name ∧ arguments[k]? = some value := by
  unfold environmentOf
  induction names generalizing arguments with
  | nil => simp
  | cons first rest ih =>
      rw [List.nodup_cons] at distinct
      cases arguments with
      | nil => simp
      | cons argument arguments =>
          rw [List.zip_cons_cons, List.lookup_cons]
          by_cases same : name = first
          · subst same
            rw [beq_self_eq_true]
            constructor
            · rintro found
              exact ⟨0, rfl, found⟩
            · rintro ⟨k, here, found⟩
              cases k with
              | zero => exact found
              | succ k =>
                  rw [List.getElem?_cons_succ] at here
                  exact absurd (List.mem_of_getElem? here) distinct.1
          · rw [beq_false_of_ne same]
            refine (ih distinct.2).trans ?_
            constructor
            · rintro ⟨k, here, found⟩
              exact ⟨k + 1, here, found⟩
            · rintro ⟨k, here, found⟩
              cases k with
              | zero =>
                  cases here
                  exact absurd rfl same
              | succ k => exact ⟨k, here, found⟩

theorem environmentOf_map_arguments (names : List String) (arguments : List (Value ν))
    (f : Value ν → Value ν) (name : String) :
    environmentOf names (arguments.map f) name = (environmentOf names arguments name).map f := by
  unfold environmentOf
  induction names generalizing arguments with
  | nil => rfl
  | cons first rest ih =>
      cases arguments with
      | nil => rfl
      | cons argument arguments =>
          rw [List.map_cons, List.zip_cons_cons, List.zip_cons_cons, List.lookup_cons,
            List.lookup_cons]
          cases name == first with
          | true => rfl
          | false => exact ih arguments

/-- Where every name has an argument, more arguments change nothing. -/
theorem environmentOf_append {names : List String} {arguments : List (Value ν)}
    (enough : names.length ≤ arguments.length) (surplus : List (Value ν)) :
    environmentOf names (arguments ++ surplus) = environmentOf names arguments := by
  have paired : names.zip (arguments ++ surplus) = names.zip arguments := by
    induction names generalizing arguments with
    | nil => rfl
    | cons first rest ih =>
        cases arguments with
        | nil => cases enough
        | cons argument arguments =>
            rw [List.cons_append, List.zip_cons_cons, List.zip_cons_cons,
              ih (Nat.le_of_succ_le_succ enough)]
  funext name
  rw [environmentOf, environmentOf, paired]

section Names

variable {expr : Dag ν} {arguments : List (Value ν)} {name : String}

theorem nodup_variableNames (expr : Dag ν) : expr.variableNames.Nodup :=
  nodup_mergeSort_eraseDups _

theorem mem_names_iff_mem_variableNames (isCoherent : Coherent expr) :
    name ∈ expr.names ↔ name ∈ expr.variableNames := by
  rw [mem_names_iff, mem_variableNames_iff isCoherent]

/-- The values of the variables are the first arguments, as many as there are names. -/
theorem mem_bound_iff (isCoherent : Coherent expr) (value : Value ν) :
    value ∈ expr.names.filterMap (environmentOf expr.variableNames arguments) ↔
      value ∈ arguments.take expr.variableNames.length := by
  rw [List.mem_filterMap, List.mem_iff_getElem?]
  simp only [environmentOf_eq_some_iff (nodup_variableNames expr)]
  constructor
  · rintro ⟨name, _, k, here, found⟩
    have inside := (List.getElem?_eq_some_iff.mp here).1
    exact ⟨k, by rwa [List.getElem?_take_of_lt inside]⟩
  · rintro ⟨k, found⟩
    have inside : k < expr.variableNames.length := by
      have taken := (List.getElem?_eq_some_iff.mp found).1
      rw [List.length_take] at taken
      exact Nat.lt_of_lt_of_le taken (Nat.min_le_left _ _)
    rw [List.getElem?_take_of_lt inside] at found
    refine ⟨expr.variableNames[k], ?_, k, List.getElem?_eq_getElem inside, found⟩
    exact (mem_names_iff_mem_variableNames isCoherent).mpr (List.getElem_mem inside)

theorem exists_environmentOf (enough : expr.variableNames.length ≤ arguments.length)
    (member : name ∈ expr.variableNames) :
    ∃ value, environmentOf expr.variableNames arguments name = some value := by
  obtain ⟨k, inside, here⟩ := List.mem_iff_getElem.mp member
  refine ⟨arguments[k], (environmentOf_eq_some_iff (nodup_variableNames expr)).mpr ⟨k, ?_, ?_⟩⟩
  · exact List.getElem?_eq_some_iff.mpr ⟨inside, here⟩
  · exact List.getElem?_eq_getElem _

end Names

variable [Arithmetic ν] {expr : Dag ν} {arguments : List (Value ν)}

/-! ## Too few arguments -/

/-- Where all variables have values, only vectors that do not fit keep a node from having one. -/
theorem mismatch_of_fault? {environment : String → Option (Value ν)} {node : Dag ν}
    (bound : ∀ tag name, Reaches node (.var tag name) →
      ∃ value, environment name = some value)
    {fault : Fault} (found : node.fault? environment = some fault) :
    ∃ m n, fault = .lengthMismatch m n := by
  have outcome : Outcome (node.names.filterMap environment) (node.evaluate environment) := by
    refine Expr.outcome_evaluate fun name member => ?_
    obtain ⟨tag, reached⟩ := mem_names_iff.mp member
    exact bound tag name reached
  rw [Expr.fault?_eq_some_iff.mp found] at outcome
  obtain ⟨xs, ys, _, _, _, _, _, same⟩ := outcome.exists_mismatch
  exact ⟨xs.length, ys.length, same⟩

/-- With too few arguments an evaluation ends at the first variable without one, or before it,
where vectors do not fit together. -/
structure EndsAtMissing (arguments : List (Value ν)) (expr : Dag ν) (passed : List (Dag ν))
    (name : String) : Prop where
  listed : ∃ tag later, expr.nodes = passed ++ .var tag name :: later
  missing : ∃ k : Nat, expr.variableNames[k]? = some name ∧ arguments.length ≤ k
  given : ∀ tag other, .var tag other ∈ passed →
    ∃ k : Nat, expr.variableNames[k]? = some other ∧ k < arguments.length
  ends : (firstFault? (environmentOf expr.variableNames arguments) passed = none ∧
      evaluateAt arguments expr = .error (.missingArgument name)) ∨
    ∃ m n, firstFault? (environmentOf expr.variableNames arguments) passed =
        some (.lengthMismatch m n) ∧
      evaluateAt arguments expr = .error (.lengthMismatch m n)

omit [Arithmetic ν] in
theorem exists_missing (isCoherent : Coherent expr)
    (few : arguments.length < expr.variableNames.length) :
    ∃ passed tag name later, expr.nodes = passed ++ .var tag name :: later ∧
      environmentOf expr.variableNames arguments name = none ∧
      ∀ tag other, .var tag other ∈ passed →
        ∃ value, environmentOf expr.variableNames arguments other = some value := by
  let lacks : Dag ν → Bool := fun node =>
    node.name?.any fun name => (environmentOf expr.variableNames arguments name).isNone
  have last : environmentOf expr.variableNames arguments
      expr.variableNames[arguments.length] = none := by
    rw [Option.eq_none_iff_forall_ne_some]
    intro value found
    obtain ⟨k, here, given⟩ := (environmentOf_eq_some_iff (nodup_variableNames expr)).mp found
    obtain ⟨inside, same⟩ := List.getElem?_eq_some_iff.mp here
    have place := (List.getElem_inj (nodup_variableNames expr)).mp same
    rw [place, List.getElem?_eq_none (Nat.le_refl _)] at given
    cases given
  obtain ⟨tag, reached⟩ := (mem_variableNames_iff isCoherent).mp (List.getElem_mem few)
  have lacking : (expr.nodes.find? lacks).isSome = true := by
    rw [List.find?_isSome]
    refine ⟨_, (mem_nodes_iff isCoherent).mpr reached, ?_⟩
    simp [lacks, Expr.name?, last]
  obtain ⟨node, found⟩ := Option.isSome_iff_exists.mp lacking
  obtain ⟨lacksNode, passed, later, split, before⟩ := List.find?_eq_some_iff_append.mp found
  cases node with
  | var tag name =>
      refine ⟨passed, tag, name, later, split, by simpa [lacks, Expr.name?] using lacksNode, ?_⟩
      intro tag other member
      have given := before _ member
      simp only [lacks, Expr.name?, Option.any_some, Bool.not_eq_true'] at given
      exact Option.isSome_iff_exists.mp (Option.isNone_eq_false_iff.mp given)
  | num _ _ => cases lacksNode
  | binary _ _ _ _ => cases lacksNode
  | apply _ _ _ => cases lacksNode

theorem exists_endsAtMissing (isCoherent : Coherent expr)
    (few : arguments.length < expr.variableNames.length) :
    ∃ passed name, EndsAtMissing arguments expr passed name := by
  obtain ⟨passed, tag, name, later, split, missing, given⟩ := exists_missing isCoherent few
  have reached : Reaches expr (.var tag name) := by
    rw [← mem_nodes_iff isCoherent, split]
    exact List.mem_append_right _ List.mem_cons_self
  refine ⟨passed, name, ⟨tag, later, split⟩, ?_, ?_, ?_⟩
  · obtain ⟨k, here⟩ :=
      List.mem_iff_getElem?.mp ((mem_variableNames_iff isCoherent).mpr ⟨tag, reached⟩)
    refine ⟨k, here, Nat.le_of_not_lt fun inside => ?_⟩
    have found := (environmentOf_eq_some_iff (nodup_variableNames expr)).mpr
      ⟨k, here, List.getElem?_eq_getElem inside⟩
    rw [missing] at found
    cases found
  · intro tag other member
    obtain ⟨value, found⟩ := given tag other member
    obtain ⟨k, here, argument⟩ := (environmentOf_eq_some_iff (nodup_variableNames expr)).mp found
    exact ⟨k, here, (List.getElem?_eq_some_iff.mp argument).1⟩
  · have here : (Expr.var tag name : Dag ν).fault?
        (environmentOf expr.variableNames arguments) = some (.missingArgument name) := by
      rw [Expr.fault?_eq_some_iff, Expr.evaluate, missing]
    have first : expr.fault? (environmentOf expr.variableNames arguments) =
        (firstFault? (environmentOf expr.variableNames arguments) passed).or
          (some (.missingArgument name)) := by
      rw [← firstFault?_nodes isCoherent, split, firstFault?, List.findSome?_append,
        List.findSome?_cons, here]
      rfl
    rw [evaluateAt_eq_evaluate arguments isCoherent]
    cases before : firstFault? (environmentOf expr.variableNames arguments) passed with
    | none =>
        rw [before] at first
        exact Or.inl ⟨rfl, Expr.fault?_eq_some_iff.mp first⟩
    | some fault =>
        rw [before] at first
        obtain ⟨node, member, faulty⟩ := List.exists_of_findSome?_eq_some before
        obtain ⟨listing, _, _⟩ := listing_nodes isCoherent
        rw [split] at listing
        obtain ⟨m, n, rfl⟩ := mismatch_of_fault? (fun tag other below =>
          given tag other (listing.of_append.mem_of_reaches below member)) faulty
        exact Or.inr ⟨m, n, rfl, Expr.fault?_eq_some_iff.mp first⟩

/-! ## Enough arguments -/

/-- With enough arguments there is no value exactly if two vectors among them have different
lengths, neither of them one. Otherwise the value is a scalar if there is no vector, and else
a vector of the length that the arguments have in common, whose elements are the values at the
elements of the arguments. Arguments beyond the variables do not matter. -/
structure Broadcasts (arguments : List (Value ν)) (expr : Dag ν) : Prop where
  fails_iff : (∃ fault, evaluateAt arguments expr = .error fault) ↔
    ∃ xs ys, .vector xs ∈ arguments.take expr.variableNames.length ∧
      .vector ys ∈ arguments.take expr.variableNames.length ∧
      xs.length ≠ ys.length ∧ xs.length ≠ 1 ∧ ys.length ≠ 1
  fault : ∀ fault, evaluateAt arguments expr = .error fault → ∃ m n, fault = .lengthMismatch m n
  scalar : (∀ ys, .vector ys ∉ arguments.take expr.variableNames.length) →
    ∃ x, evaluateAt arguments expr = .ok (.scalar x)
  numbers : ∀ assignment : String → ν, arguments.take expr.variableNames.length =
      expr.variableNames.map (fun name => .scalar (assignment name)) →
    evaluateAt arguments expr = .ok (.scalar (expr.valueUnder assignment))
  vector : ∀ zs, .vector zs ∈ arguments.take expr.variableNames.length →
    (∃ fault, evaluateAt arguments expr = .error fault) ∨
    ∃ xs, evaluateAt arguments expr = .ok (.vector xs) ∧
      (∀ ys, .vector ys ∈ arguments.take expr.variableNames.length →
        ys.length = xs.length ∨ ys.length = 1) ∧
      (∃ ys, .vector ys ∈ arguments.take expr.variableNames.length ∧ ys.length = xs.length) ∧
      ∀ i x, xs[i]? = some x →
        evaluateAt (arguments.map (Value.elementAt i)) expr = .ok (.scalar x)
  surplus : ∀ more, evaluateAt (arguments ++ more) expr = evaluateAt arguments expr

theorem outcome_evaluateAt (isCoherent : Coherent expr)
    (enough : expr.variableNames.length ≤ arguments.length) :
    Outcome (arguments.take expr.variableNames.length) (evaluateAt arguments expr) := by
  rw [evaluateAt_eq_evaluate arguments isCoherent]
  refine (Expr.outcome_evaluate ?_).congr (mem_bound_iff isCoherent)
  intro name member
  exact exists_environmentOf enough ((mem_names_iff_mem_variableNames isCoherent).mp member)

theorem evaluateAt_element (isCoherent : Coherent expr) {xs : List ν}
    (evaluates : evaluateAt arguments expr = .ok (.vector xs)) {i : Nat} {x : ν}
    (element : xs[i]? = some x) :
    evaluateAt (arguments.map (Value.elementAt i)) expr = .ok (.scalar x) := by
  rw [evaluateAt_eq_evaluate _ isCoherent] at evaluates ⊢
  refine Expr.evaluate_element ?_ evaluates (Value.element?_of_getElem? element)
  intro name _ value y found element
  rw [environmentOf_map_arguments, found, Option.map_some, Value.elementAt, element]

theorem evaluateAt_append (isCoherent : Coherent expr)
    (enough : expr.variableNames.length ≤ arguments.length) (more : List (Value ν)) :
    evaluateAt (arguments ++ more) expr = evaluateAt arguments expr := by
  rw [evaluateAt_eq_evaluate _ isCoherent, evaluateAt_eq_evaluate _ isCoherent,
    environmentOf_append enough]

theorem evaluateAt_numbers (isCoherent : Coherent expr)
    (enough : expr.variableNames.length ≤ arguments.length) (assignment : String → ν)
    (assigned : arguments.take expr.variableNames.length =
      expr.variableNames.map fun name => .scalar (assignment name)) :
    evaluateAt arguments expr = .ok (.scalar (expr.valueUnder assignment)) := by
  have enoughTaken := Nat.le_of_eq (List.length_take_of_le enough).symm
  have taken := evaluateAt_append isCoherent enoughTaken
    (arguments.drop expr.variableNames.length)
  rw [List.take_append_drop, assigned] at taken
  rw [taken]
  exact evaluateUnder_eq isCoherent assignment

theorem broadcasts (isCoherent : Coherent expr)
    (enough : expr.variableNames.length ≤ arguments.length) : Broadcasts arguments expr := by
  have outcome := outcome_evaluateAt isCoherent enough
  constructor
  · exact outcome.error_iff
  · intro fault failed
    rw [failed] at outcome
    obtain ⟨xs, ys, _, _, _, _, _, same⟩ := outcome.exists_mismatch
    exact ⟨xs.length, ys.length, same⟩
  · exact outcome.exists_scalar
  · exact evaluateAt_numbers isCoherent enough
  · intro zs member
    refine (outcome.error_or_exists_vector member).imp_right ?_
    rintro ⟨xs, evaluates, fits, held⟩
    exact ⟨xs, evaluates, fits, held, fun i x element =>
      evaluateAt_element isCoherent evaluates element⟩
  · exact evaluateAt_append isCoherent enough

/-- The evaluator takes arguments for the free variables of an expression in ascending order of
their names. If there are too few, it ends at the first node in the listing that is a variable
without an argument, unless vectors did not fit together at a node before. If there are enough,
the arguments alone decide whether there is a value and of which shape it is. -/
theorem evaluateAt_broadcasts (arguments : List (Value ν)) {expr : Dag ν}
    (isCoherent : Coherent expr) :
    expr.variableNames.Pairwise (· < ·) ∧
      (∀ name, name ∈ expr.variableNames ↔ ∃ tag, Reaches expr (.var tag name)) ∧
      (arguments.length < expr.variableNames.length →
        ∃ passed name, EndsAtMissing arguments expr passed name) ∧
      (expr.variableNames.length ≤ arguments.length → Broadcasts arguments expr) :=
  ⟨pairwise_lt_mergeSort_eraseDups _, fun _ => mem_variableNames_iff isCoherent,
    exists_endsAtMissing isCoherent, broadcasts isCoherent⟩

/-- The sum `x + y` has no value at one number, nor at vectors of two and of three numbers. -/
theorem evaluateAt_broadcasts_sum :
    let sum := (fresh (fun _ => none) 0
      (.binary () .add (.var () "x") (.var () "y") : Expr Float Unit)).1
    Coherent sum ∧ sum.variableNames = ["x", "y"] ∧
      (∃ passed name, EndsAtMissing [.scalar 1] sum passed name) ∧
      ∃ fault, evaluateAt [.vector [1, 2], .vector [3, 4, 5]] sum = .error fault := by
  intro sum
  have isCoherent : Coherent sum := (coherent_below_fresh _ _ _).1
  have names : sum.variableNames = ["x", "y"] := by
    have distinct : (unfold sum).names.eraseDups = ["x", "y"] := rfl
    rw [variableNames_eq isCoherent, Expr.sortedNames, distinct]
    exact List.mergeSort_of_pairwise (by decide)
  obtain ⟨_, _, missing, _⟩ := evaluateAt_broadcasts [.scalar 1] isCoherent
  obtain ⟨_, _, _, enough⟩ :=
    evaluateAt_broadcasts [.vector [1, 2], .vector [3, 4, 5]] isCoherent
  rw [names] at missing enough
  refine ⟨isCoherent, names, missing (by decide), (enough (by decide)).fails_iff.mpr ?_⟩
  rw [names]
  exact ⟨[1, 2], [3, 4, 5], by simp, by simp, by decide, by decide, by decide⟩

end Dag

end Fluxion
