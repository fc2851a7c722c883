import Mathlib.Data.List.Forall2
import Replication.Word

/-!
# Outcomes of composed operations

When a composed operation has a value, each of its parts has one. The lemmas here say so for every
way in which the library composes operations, as an equivalence, so that a proof takes a sequence
of steps apart, or puts one together, without looking at how failures are passed on. Operations
that answer, and operations that never abort, are closed under these compositions. Arithmetic of
words has the exact result wherever that is a word.
-/

namespace Replication.Result

variable {α β : Type}

/-- Two steps succeed exactly if the first does and the second does on its result. -/
theorem bind_eq_ok_iff {first : Result α} {next : α → Result β} {y : β} :
    first >>= next = .ok y ↔ ∃ x, first = .ok x ∧ next x = .ok y := by
  constructor
  · exact bind_eq_ok
  · rintro ⟨x, rfl, h⟩
    exact h

@[simp] theorem ok_bind (x : α) (next : α → Result β) :
    (Except.ok x : Result α) >>= next = next x := rfl

@[simp] theorem pure_eq_ok (x : α) : (pure x : Result α) = .ok x := rfl

/-- What follows a step matters only where the step has a value. -/
theorem bind_congr_of_ok {first : Result α} {next next' : α → Result β}
    (h : ∀ x, first = .ok x → next x = next' x) : first >>= next = first >>= next' := by
  rcases first with failure | x
  · rfl
  · exact h x rfl

theorem map_eq_ok_iff {f : α → β} {r : Result α} {y : β} :
    r.map f = .ok y ↔ ∃ x, r = .ok x ∧ f x = y := by
  cases r with
  | error failure => simp [Except.map]
  | ok x => simp [Except.map]

/-- A requirement passes exactly if its condition holds. -/
theorem require_eq_ok_iff {p : Prop} [Decidable p] {cause : Refusal} {u : Unit} :
    require p cause = .ok u ↔ p := by
  unfold require
  by_cases hp : p
  · simp [hp]
  · simp [hp, refuse]

theorem require_of {p : Prop} [Decidable p] {cause : Refusal} (h : p) :
    require p cause = .ok () :=
  require_eq_ok_iff.mpr h

theorem require_of_not {p : Prop} [Decidable p] {cause : Refusal} (h : ¬p) :
    require p cause = refuse cause :=
  if_neg h

/-- Naming the tree that is being built changes failures alone. -/
theorem whileBuilding_eq_ok_iff {tree : TreeRole} {r : Result α} {x : α} :
    whileBuilding tree r = .ok x ↔ r = .ok x := by
  rcases r with (cause | reason) | y
  · simp [whileBuilding]
  · simp [whileBuilding]
  · rfl

theorem check_eq_ok_true_iff {p : Prop} [Decidable p] : check p = .ok true ↔ p := by
  unfold check
  simp

theorem andAlso_eq_ok_true_iff {first second : Result Bool} :
    andAlso first second = .ok true ↔ first = .ok true ∧ second = .ok true := by
  unfold andAlso
  split
  · simp
  · rename_i hother
    constructor
    · intro h
      exact absurd h hother
    · intro h
      exact absurd h.1 hother

/-- A test of a list answers yes exactly if it does on every item. -/
theorem allOf_eq_ok_true_iff {f : α → Result Bool} {xs : List α} :
    allOf f xs = .ok true ↔ ∀ x ∈ xs, f x = .ok true := by
  induction xs with
  | nil => simp [allOf]
  | cons x xs ih => rw [allOf, andAlso_eq_ok_true_iff, ih, List.forall_mem_cons]

/-- Testing mapped items is testing the items with the composed test. -/
theorem allOf_map {β : Type} (f : β → Result Bool) (g : α → β) (xs : List α) :
    allOf f (xs.map g) = allOf (fun x => f (g x)) xs := by
  induction xs with
  | nil => rfl
  | cons x xs ih => rw [List.map_cons, allOf, allOf, ih]

/-- A check of a list passes exactly if every item does. -/
theorem forEach_eq_ok_iff {f : α → Result Unit} {xs : List α} {u : Unit} :
    forEach f xs = .ok u ↔ ∀ x ∈ xs, f x = .ok () := by
  induction xs with
  | nil => simp [forEach]
  | cons x xs ih =>
    rw [forEach, bind_eq_ok_iff, List.forall_mem_cons, ← ih]
    constructor
    · rintro ⟨⟨⟩, hx, hxs⟩
      exact ⟨hx, hxs⟩
    · rintro ⟨hx, hxs⟩
      exact ⟨(), hx, hxs⟩

/-- Nothing runs after a refusal. -/
@[simp] theorem refuse_bind (cause : Refusal) (next : α → Result β) :
    (refuse cause : Result α) >>= next = refuse cause := rfl

@[simp] theorem abort_bind (reason : Abort) (next : α → Result β) :
    (abort reason : Result α) >>= next = abort reason := rfl

/-! ## Answers and refusals -/

theorem exists_check (p : Prop) [Decidable p] : ∃ answer, check p = .ok answer := ⟨decide p, rfl⟩

theorem exists_andAlso {first second : Result Bool} (hfirst : ∃ answer, first = .ok answer)
    (hsecond : ∃ answer, second = .ok answer) : ∃ answer, andAlso first second = .ok answer := by
  obtain ⟨_ | _, rfl⟩ := hfirst
  · exact ⟨false, rfl⟩
  · exact hsecond

theorem exists_allOf {f : α → Result Bool} {xs : List α}
    (h : ∀ x ∈ xs, ∃ answer, f x = .ok answer) : ∃ answer, allOf f xs = .ok answer := by
  induction xs with
  | nil => exact ⟨true, rfl⟩
  | cons x xs ih =>
    exact exists_andAlso (h x List.mem_cons_self) (ih fun y hy => h y (List.mem_cons_of_mem x hy))

/-- The operation has a value or is refused; it does not abort. -/
def NeverAborts (r : Result α) : Prop := ∀ reason, r ≠ .error (.aborted reason)

theorem neverAborts_ok (x : α) : NeverAborts (.ok x) := by simp [NeverAborts]

theorem neverAborts_refuse (cause : Refusal) : NeverAborts (refuse cause : Result α) := by
  simp [NeverAborts, refuse]

theorem neverAborts_require (p : Prop) [Decidable p] (cause : Refusal) :
    NeverAborts (require p cause) := by
  unfold require refuse
  split <;> simp [NeverAborts]

/-- What follows a step must not abort on the value that the step has. -/
theorem NeverAborts.bind_of_ok {first : Result α} {next : α → Result β}
    (hfirst : NeverAborts first) (hnext : ∀ x, first = .ok x → NeverAborts (next x)) :
    NeverAborts (first >>= next) := by
  rcases first with failure | x
  · intro reason h
    cases h
    exact hfirst reason rfl
  · exact hnext x rfl

/-- Two steps that never abort never abort one after the other. -/
theorem NeverAborts.bind {first : Result α} {next : α → Result β} (hfirst : NeverAborts first)
    (hnext : ∀ x, NeverAborts (next x)) : NeverAborts (first >>= next) :=
  hfirst.bind_of_ok fun x _ => hnext x

theorem NeverAborts.map {r : Result α} (h : NeverAborts r) (f : α → β) :
    NeverAborts (r.map f) := by
  rcases r with failure | x
  · intro reason heq
    cases heq
    exact h reason rfl
  · exact neverAborts_ok (f x)

theorem NeverAborts.whileBuilding {r : Result α} (h : NeverAborts r) (tree : TreeRole) :
    NeverAborts (whileBuilding tree r) := by
  rcases r with (cause | reason) | x
  · exact neverAborts_refuse _
  · exact absurd rfl (h reason)
  · exact neverAborts_ok x

theorem neverAborts_forEach {f : α → Result Unit} {xs : List α}
    (h : ∀ x ∈ xs, NeverAborts (f x)) : NeverAborts (forEach f xs) := by
  induction xs with
  | nil => exact neverAborts_ok ()
  | cons x xs ih =>
    exact (h x List.mem_cons_self).bind fun _ => ih fun y hy => h y (List.mem_cons_of_mem x hy)

theorem neverAborts_mapM {f : α → Result β} {xs : List α} (h : ∀ x ∈ xs, NeverAborts (f x)) :
    NeverAborts (xs.mapM f) := by
  induction xs with
  | nil => exact neverAborts_ok []
  | cons x xs ih =>
    rw [List.mapM_cons]
    refine (h x List.mem_cons_self).bind fun y => ?_
    exact (ih fun z hz => h z (List.mem_cons_of_mem x hz)).bind fun ys => neverAborts_ok (y :: ys)

/-- What does not abort and has no value is refused. -/
theorem NeverAborts.exists_refusal {r : Result α} (h : NeverAborts r) (hnot : ∀ x, r ≠ .ok x) :
    ∃ cause, r = .error (.refused cause) := by
  rcases r with (cause | reason) | x
  · exact ⟨cause, rfl⟩
  · exact absurd rfl (h reason)
  · exact absurd rfl (hnot x)

/-! ## Traversals of lists -/

/-- A traversal has a value if every element has one; the values come in the order of the
elements. -/
theorem mapM_eq_ok_iff {f : α → Result β} {xs : List α} {ys : List β} :
    xs.mapM f = .ok ys ↔ List.Forall₂ (fun x y => f x = .ok y) xs ys := by
  induction xs generalizing ys with
  | nil =>
    rw [List.mapM_nil, List.forall₂_nil_left_iff, pure_eq_ok, Except.ok.injEq]
    exact eq_comm
  | cons x xs ih =>
    rw [List.mapM_cons, bind_eq_ok_iff, List.forall₂_cons_left_iff]
    constructor
    · rintro ⟨y, hy, h⟩
      obtain ⟨rest, hrest, h⟩ := bind_eq_ok h
      cases h
      exact ⟨y, rest, hy, ih.mp hrest, rfl⟩
    · rintro ⟨y, rest, hy, hrest, rfl⟩
      exact ⟨y, hy, by rw [ih.mpr hrest]; rfl⟩

/-- A successful traversal has a result for every item. -/
theorem length_of_mapM {f : α → Result β} {xs : List α} {ys : List β}
    (h : xs.mapM f = .ok ys) : ys.length = xs.length :=
  (mapM_eq_ok_iff.mp h).length_eq.symm

/-- Where a traversal has a value, every element has one. -/
theorem exists_of_mapM {f : α → Result β} {xs : List α} {ys : List β} (h : xs.mapM f = .ok ys)
    {x : α} (hx : x ∈ xs) : ∃ y, f x = .ok y := by
  obtain ⟨i, hi, rfl⟩ := List.getElem_of_mem hx
  have hi' : i < ys.length := by rwa [length_of_mapM h]
  exact ⟨ys[i], (mapM_eq_ok_iff.mp h).get hi hi'⟩

/-- Where every element has a value, the traversal has one. -/
theorem exists_mapM {f : α → Result β} {xs : List α} (h : ∀ x ∈ xs, ∃ y, f x = .ok y) :
    ∃ ys, xs.mapM f = .ok ys := by
  induction xs with
  | nil => exact ⟨[], rfl⟩
  | cons x xs ih =>
    obtain ⟨y, hy⟩ := h x List.mem_cons_self
    obtain ⟨ys, hys⟩ := ih fun z hz => h z (List.mem_cons_of_mem x hz)
    refine ⟨y :: ys, ?_⟩
    rw [List.mapM_cons, hy, ok_bind, hys]
    rfl

/-- Where the value of every element is known, so is that of the traversal. -/
theorem mapM_eq_ok_map {f : α → Result β} {value : α → β} {xs : List α}
    (h : ∀ x ∈ xs, f x = .ok (value x)) : xs.mapM f = .ok (xs.map value) := by
  rw [mapM_eq_ok_iff, List.forall₂_map_right_iff, List.forall₂_same]
  exact h

theorem mapM_congr {f f' : α → Result β} {xs : List α} (h : ∀ x ∈ xs, f x = f' x) :
    xs.mapM f = xs.mapM f' := by
  induction xs with
  | nil => rfl
  | cons x xs ih =>
    rw [List.mapM_cons, List.mapM_cons, h x List.mem_cons_self,
      ih fun y hy => h y (List.mem_cons_of_mem x hy)]

/-- The value at a position of a traversal is that of the element there. -/
theorem getElem_of_mapM {f : α → Result β} {xs : List α} {ys : List β}
    (h : xs.mapM f = .ok ys) (i : Nat) (hx : i < xs.length) (hy : i < ys.length) :
    f xs[i] = .ok ys[i] :=
  (mapM_eq_ok_iff.mp h).get hx hy

/-- The values of a traversal of the first numbers, number by number. -/
theorem mapM_range_eq_ok_iff {f : Nat → Result α} {count : Nat} {ys : List α} :
    (List.range count).mapM f = .ok ys ↔
      ys.length = count ∧ ∀ i (hi : i < ys.length), f i = .ok ys[i] := by
  rw [mapM_eq_ok_iff, List.forall₂_iff_get]
  simp only [List.length_range, List.get_eq_getElem, List.getElem_range, eq_comm (a := count)]
  constructor
  · intro h
    obtain ⟨hlen, hget⟩ := h
    exact ⟨hlen, fun i hi => hget i (by omega) hi⟩
  · intro h
    obtain ⟨hlen, hget⟩ := h
    exact ⟨hlen, fun i _ hi => hget i hi⟩

/-- What every step's result has, all results of a traversal have. -/
theorem forall_mem_of_mapM {f : α → Result β} {xs : List α} {ys : List β} {p : β → Prop}
    (h : xs.mapM f = .ok ys) (hp : ∀ x ∈ xs, ∀ y, f x = .ok y → p y) : ∀ y ∈ ys, p y := by
  intro y hy
  obtain ⟨i, hi, rfl⟩ := List.mem_iff_getElem.mp hy
  have hlen := length_of_mapM h
  have hi' : i < xs.length := by omega
  exact hp _ (List.getElem_mem hi') _ (getElem_of_mapM h i hi' hi)

/-- All answers of a traversal are yes exactly if every element's is. -/
theorem mapM_all_true_iff {f : α → Result Bool} {xs : List α} :
    (∃ answers, xs.mapM f = .ok answers ∧ answers.all id = true) ↔ ∀ x ∈ xs, f x = .ok true := by
  refine ⟨?_, ?_⟩
  · intro h x hx
    obtain ⟨answers, hanswers, hall⟩ := h
    -- the answer to an element stands where the element stands
    obtain ⟨i, hi, rfl⟩ := List.getElem_of_mem hx
    have hlen := length_of_mapM hanswers
    have hi' : i < answers.length := by omega
    have htrue := List.all_eq_true.mp hall _ (List.getElem_mem hi')
    rw [getElem_of_mapM hanswers i hi hi']
    exact congrArg _ htrue
  · intro h
    refine ⟨xs.map fun _ => true, mapM_eq_ok_map h, ?_⟩
    rw [List.all_map, List.all_eq_true]
    intro x _
    rfl

/-- What is asked for every number of a range that is not empty is asked. -/
theorem forall_mem_range_const {count : Nat} (hpos : 1 ≤ count) {p : Prop} :
    (∀ k ∈ List.range count, p) ↔ p :=
  ⟨fun h => h 0 (List.mem_range.mpr hpos), fun h _ _ => h⟩

/-- A count over a range is a traversal of the range. -/
theorem forRange_eq_mapM (f : Nat → Result α) (start count : Nat) :
    forRange f start count = (List.range' start count).mapM f := by
  induction count generalizing start with
  | zero => rfl
  | succ count ih =>
    rw [List.range'_succ, List.mapM_cons, forRange, ih]

/-- A successful run over a range has a result for every index. -/
theorem length_of_forRange {f : Nat → Result α} {start count : Nat} {ys : List α}
    (h : forRange f start count = .ok ys) : ys.length = count := by
  rw [forRange_eq_mapM] at h
  rw [length_of_mapM h, List.length_range']

/-- The results of a run over a range stand in the order of the indices. -/
theorem getElem_of_forRange {f : Nat → Result α} {start count : Nat} {ys : List α}
    (h : forRange f start count = .ok ys) (i : Nat) (hi : i < ys.length) :
    f (start + i) = .ok ys[i] := by
  have hlen := length_of_forRange h
  rw [forRange_eq_mapM] at h
  have hi' : i < (List.range' start count).length := by
    rw [List.length_range']
    omega
  have hget := getElem_of_mapM h i hi' hi
  rwa [List.getElem_range', Nat.one_mul] at hget

theorem exists_forRange {f : Nat → Result α} {start count : Nat}
    (h : ∀ i, i < count → ∃ y, f (start + i) = .ok y) : ∃ ys, forRange f start count = .ok ys := by
  rw [forRange_eq_mapM]
  apply exists_mapM
  intro x hx
  obtain ⟨i, hi, rfl⟩ := List.mem_range'.mp hx
  rw [Nat.one_mul]
  exact h i hi

/-- A range fails as the first of its numbers that fails. -/
theorem forRange_eq_error {f : Nat → Result α} {start count first : Nat} {failure : Failure}
    (hfirst : first < count) (hbefore : ∀ i < first, ∃ y, f (start + i) = .ok y)
    (hfails : f (start + first) = .error failure) :
    forRange f start count = .error failure := by
  obtain ⟨count, rfl⟩ : ∃ rest, count = rest + 1 := ⟨count - 1, by omega⟩
  induction first generalizing start count with
  | zero =>
    rw [Nat.add_zero] at hfails
    rw [forRange, hfails]
    rfl
  | succ first ih =>
    obtain ⟨y, hy⟩ := hbefore 0 (by omega)
    rw [Nat.add_zero] at hy
    obtain ⟨count, rfl⟩ : ∃ rest, count = rest + 1 := ⟨count - 1, by omega⟩
    have hrest : forRange f (start + 1) (count + 1) = .error failure := by
      refine ih ?_ ?_ count (by omega)
      · intro i hi
        have hnext := hbefore (i + 1) (by omega)
        rwa [Nat.add_right_comm, Nat.add_assoc]
      · rwa [Nat.add_right_comm, Nat.add_assoc]
    rw [forRange, hy, ok_bind, hrest]
    rfl

end Replication.Result

/-! ## Words -/

namespace Replication.Word

theorem add_of_lt {a b : Nat} (h : a + b < limit) : add a b = .ok (a + b) :=
  add_eq_ok_iff.mpr ⟨h, rfl⟩

/-- A number from the limit on overflows. -/
theorem ofNat_of_le {value : Nat} (h : limit ≤ value) : ofNat value = abort .overflow :=
  if_neg (by omega)

theorem add_of_le {a b : Nat} (h : limit ≤ a + b) : add a b = abort .overflow := ofNat_of_le h

theorem mul_of_le {a b : Nat} (h : limit ≤ a * b) : mul a b = abort .overflow := ofNat_of_le h

theorem mul_of_lt {a b : Nat} (h : a * b < limit) : mul a b = .ok (a * b) :=
  mul_eq_ok_iff.mpr ⟨h, rfl⟩

theorem sub_of_le {a b : Nat} (h : b ≤ a) : sub a b = .ok (a - b) :=
  sub_eq_ok_iff.mpr ⟨h, rfl⟩

theorem div_of_pos {a b : Nat} (h : 0 < b) : div a b = .ok (a / b) := by
  unfold div
  rw [if_neg (by omega)]

theorem rem_of_pos {a b : Nat} (h : 0 < b) : rem a b = .ok (a % b) := by
  unfold rem
  rw [if_neg (by omega)]

theorem powTwo_of_lt {exponent : Nat} (h : exponent < 64) :
    powTwo exponent = .ok (2 ^ exponent) := by
  unfold powTwo
  rw [if_pos h]

end Replication.Word
