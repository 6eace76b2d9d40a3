import Mathlib.Data.List.Basic

/-!
# Scans into a buffer with a capacity

A loop that visits some indices in order, appends what it finds to a buffer, and stops once the
buffer holds `room` entries. Such a loop may be the body of another one. Whatever the nesting, the
buffer ends with the first `room` entries of what a scan without the limit finds
(`scan_collects`).
-/

namespace Scan

variable {ι α : Type*}

/-- `for (i ∈ is) if (length < room) body(i)`, stopped at the first index without room. -/
def scan (room : Nat) (body : ι → List α → List α) : List ι → List α → List α
  | [], found => found
  | i :: is, found => if found.length < room then scan room body is (body i found) else found

/-- The step appends `items`, as far as there is room. -/
def Collects (room : Nat) (step : List α → List α) (items : List α) : Prop :=
  ∀ found, found.length ≤ room → step found = (found ++ items).take room

section
variable {room : Nat} {step : List α → List α} {items : List α} {body : ι → List α → List α}
  {f : ι → List α}

/-- The loop goes on to the next index while there is room. -/
theorem scan_cons (i : ι) (is : List ι) (found : List α) :
    scan room body (i :: is) found =
      if found.length < room then scan room body is (body i found) else found := rfl

/-- From an empty buffer. -/
theorem Collects.eq_take (h : Collects room step items) : step [] = items.take room :=
  h [] (Nat.zero_le room)

/-- A step that finds nothing. -/
theorem collects_nil (room : Nat) : Collects room (fun found : List α => found) [] := by
  intro found hroom
  rw [List.append_nil, List.take_of_length_le hroom]

/-- If every round collects what its index gives, the loop collects what all of them give, up to the
room. -/
theorem scan_collects {is : List ι}
    (h : ∀ i ∈ is, ∀ found, found.length < room → body i found = (found ++ f i).take room) :
    Collects room (scan room body is) (is.flatMap f) := by
  induction is with
  | nil => exact collects_nil room
  | cons i is ih =>
      intro found hle
      rw [scan_cons, List.flatMap_cons, ← List.append_assoc]
      split
      · next hroom =>
          have htake : ((found ++ f i).take room).length ≤ room := List.length_take_le room _
          rw [h i List.mem_cons_self found hroom,
            ih (fun j hj => h j (List.mem_cons_of_mem i hj)) _ htake]
          -- either the buffer is full after `i`, or nothing was cut off
          rcases Nat.le_total (found ++ f i).length room with hfit | hfull
          · rw [List.take_of_length_le hfit]
          · rw [List.take_append_of_le_length hfull,
              List.take_append_of_le_length (by rw [List.length_take]; omega), List.take_take,
              Nat.min_self]
      · next hfull =>
          have hlen : found.length = room := by omega
          rw [List.append_assoc, List.take_append_of_le_length (by omega),
            List.take_of_length_le hle]

end

end Scan
