import Replication.Failure

/-!
# Buffers

An operation that writes to a buffer answers with its outcome and with the buffer it leaves
behind, so that what happens to the buffer after a failure can be stated. The slots of a buffer
are written one after the other, each once its value is there: a slot without a value leaves those
before it written.
-/

namespace Replication

/-- An operation on a buffer: the outcome and the buffer afterwards. -/
abbrev OnBuffer (β α : Type) := β → Result α × β

namespace Buffer

variable {α : Type}

/-- Writes slots to a buffer behind the values already written, which are held in reverse order. -/
def fillOnto (written : List α) : List (Result α) → OnBuffer (List α) Unit
  | [], buffer => (.ok (), written.reverse ++ buffer)
  | _ :: _, [] => (abort .outOfRange, written.reverse)
  | .error failure :: _, old :: buffer => (.error failure, written.reverse ++ old :: buffer)
  | .ok value :: slots, _ :: buffer => fillOnto (value :: written) slots buffer

/-- Writes slots to the start of a buffer, up to the first that has no value. -/
def fill : List (Result α) → OnBuffer (List α) Unit := fillOnto []

/-- Writes the slots that a computation makes ready. If it fails, nothing is written. -/
def fillWith (source : Result (List (Result α))) : OnBuffer (List α) Unit := fun buffer =>
  match source with
  | .ok slots => fill slots buffer
  | .error failure => (.error failure, buffer)

/-- The values of all slots that a computation makes ready. -/
def values (source : Result (List (Result α))) : Result (List α) := do
  let slots ← source
  slots.mapM id

/-- Slots that all have values are written over as many slots of the buffer. -/
theorem fillOnto_map_ok (written : List α) {new buffer : List α}
    (h : new.length ≤ buffer.length) :
    fillOnto written (new.map .ok) buffer
      = (.ok (), written.reverse ++ (new ++ buffer.drop new.length)) := by
  induction new generalizing written buffer with
  | nil => rw [List.map_nil, fillOnto, List.length_nil, List.drop_zero, List.nil_append]
  | cons value new ih =>
    cases buffer with
    | nil => simp at h
    | cons old buffer =>
      rw [List.map_cons, fillOnto, ih (value :: written) (Nat.le_of_succ_le_succ h),
        List.reverse_cons, List.append_assoc]
      rfl

/-- Slots that all have a value are all written, and what lies behind them in the buffer stays. -/
theorem fill_map_ok {new buffer : List α} (h : new.length ≤ buffer.length) :
    fill (new.map .ok) buffer = (.ok (), new ++ buffer.drop new.length) :=
  fillOnto_map_ok [] h

theorem values_map_ok (new : List α) : values (.ok (new.map .ok)) = .ok new := by
  show (new.map Except.ok).mapM id = (Except.ok new : Result (List α))
  induction new with
  | nil => rfl
  | cons value new ih =>
    rw [List.map_cons, List.mapM_cons, ih]
    rfl

end Buffer

end Replication
