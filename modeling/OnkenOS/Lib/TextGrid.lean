import Mathlib.Data.List.ModifyLast

/-!
# Text in a grid of cells

A text is put into cells from the left to the right. A newline goes on with the next row, and so
does a full row, if the grid has a width (a width of zero stands for none). The cells hold the
characters of the rows (`mem_cells`), and the next character would come right behind the last row
(`cursor_eq`).
-/

namespace TextGrid

variable {α : Type*}

section
variable [DecidableEq α]

/-- The rows of a text, when the first of them has `col` characters already. -/
def rows (nl : α) (k : Nat) : Nat → List α → List (List α)
  | _, [] => [[]]
  | col, c :: text =>
      if c = nl then [] :: rows nl k 0 text
      else if col + 1 = k then [c] :: rows nl k 0 text
      else (rows nl k (col + 1) text).modifyHead (c :: ·)

/-- The characters of a text with their columns and rows, the first one at column `col` of row
`row`. -/
def cells (nl : α) (k : Nat) : Nat → Nat → List α → List (Nat × Nat × α)
  | _, _, [] => []
  | col, row, c :: text =>
      if c = nl then cells nl k 0 (row + 1) text
      else (col, row, c) ::
        if col + 1 = k then cells nl k 0 (row + 1) text else cells nl k (col + 1) row text

/-- The column and the row behind a text. -/
def cursor (nl : α) (k : Nat) : Nat → Nat → List α → Nat × Nat
  | col, row, [] => (col, row)
  | col, row, c :: text =>
      if c = nl ∨ col + 1 = k then cursor nl k 0 (row + 1) text
      else cursor nl k (col + 1) row text

end

/-- The character in a cell of a row, if there is one. -/
def charAt (lines : List (List α)) (i j : Nat) : Option α := (lines.getD j [])[i]?

/-- A row that is ended, with the ones below it. -/
theorem charAt_cons (first : List α) (lines : List (List α)) (i j : Nat) :
    charAt (first :: lines) i j = if j = 0 then first[i]? else charAt lines i (j - 1) := by
  cases j with
  | zero => rfl
  | succ j => rfl

/-- The character in a cell is one of those of the rows. -/
theorem mem_flatten_of_charAt {lines : List (List α)} {i j : Nat} {c : α}
    (h : charAt lines i j = some c) : c ∈ lines.flatten := by
  rw [charAt, List.getD_eq_getElem?_getD] at h
  cases hrow : lines[j]? with
  | none =>
      rw [hrow] at h
      cases h
  | some first =>
      rw [hrow] at h
      exact List.mem_flatten.2 ⟨first, List.mem_of_getElem? hrow, List.mem_of_getElem? h⟩

/-- A character put in front of the first row moves that row by one place, and no other. -/
theorem charAt_modifyHead {lines : List (List α)} (h : lines ≠ []) (c : α) (i j : Nat) :
    charAt (lines.modifyHead (c :: ·)) i j =
      if j = 0 then (if i = 0 then some c else charAt lines (i - 1) 0) else charAt lines i j := by
  cases lines with
  | nil => exact absurd rfl h
  | cons line lines =>
      cases j with
      | zero =>
          cases i with
          | zero => rfl
          | succ i => rfl
      | succ j => rfl

section
variable [DecidableEq α] {nl c : α} {k col row i j : Nat} {text : List α}

/-- Even the empty text has a row. -/
theorem rows_ne_nil (nl : α) (k col : Nat) (text : List α) : rows nl k col text ≠ [] := by
  induction text generalizing col with
  | nil => exact List.cons_ne_nil _ _
  | cons c text ih =>
      unfold rows
      split
      · exact List.cons_ne_nil _ _
      · split
        · exact List.cons_ne_nil _ _
        · rw [Ne, List.modifyHead_eq_nil_iff]
          exact ih (col + 1)

/-- The cells hold the characters of the rows: the same text, seen as the loop prints it and as rows
of characters. By induction on the text, with the row and the column the loop has come to. -/
theorem mem_cells : ∀ {text : List α} {col row : Nat},
    (i, j, c) ∈ cells nl k col row text ↔ row ≤ j ∧ (if j = row then col else 0) ≤ i ∧
      charAt (rows nl k col text) (i - if j = row then col else 0) (j - row) = some c
  | [], col, row => by
      unfold cells rows
      rw [charAt_cons]
      simp [charAt]
  | d :: text, col, row => by
      have hbelow : (i, j, c) ∈ cells nl k 0 (row + 1) text ↔
          row < j ∧ charAt (rows nl k 0 text) i (j - row - 1) = some c := by
        rw [mem_cells, ite_self, Nat.sub_zero, Nat.sub_sub]
        simp only [Nat.succ_le_iff, Nat.zero_le, true_and]
      unfold cells rows
      by_cases hd : d = nl
      · rw [if_pos hd, if_pos hd, hbelow, charAt_cons]
        rcases Nat.lt_trichotomy j row with hlt | rfl | hlt
        · simp only [Nat.not_le.2 hlt, Nat.not_lt.2 (Nat.le_of_lt hlt), false_and]
        · simp
        · have hne : j ≠ row := Nat.ne_of_gt hlt
          have hsub : j - row ≠ 0 := by omega
          simp only [hne, hsub, if_false, Nat.zero_le, true_and, Nat.sub_zero, hlt,
            Nat.le_of_lt hlt]
      · rw [if_neg hd, if_neg hd, List.mem_cons, Prod.mk.injEq, Prod.mk.injEq]
        by_cases hk : col + 1 = k
        · rw [if_pos hk, if_pos hk, hbelow, charAt_cons]
          rcases Nat.lt_trichotomy j row with hlt | rfl | hlt
          · simp only [Nat.ne_of_lt hlt, Nat.not_le.2 hlt, Nat.not_lt.2 (Nat.le_of_lt hlt),
              false_and, and_false, or_false]
          · simp only [Nat.lt_irrefl, false_and, or_false, Nat.le_refl, true_and, Nat.sub_self,
              if_true, List.getElem?_singleton]
            rcases Nat.lt_trichotomy i col with hi | rfl | hi
            · simp only [Nat.ne_of_lt hi, Nat.not_le.2 hi, false_and]
            · simp [eq_comm]
            · have hsub : i - col ≠ 0 := by omega
              simp [hsub, Nat.ne_of_gt hi]
          · have hne : j ≠ row := Nat.ne_of_gt hlt
            have hsub : j - row ≠ 0 := by omega
            simp only [hne, hsub, false_and, and_false, false_or, if_false, Nat.zero_le, true_and,
              Nat.sub_zero, hlt, Nat.le_of_lt hlt]
        · rw [if_neg hk, if_neg hk, mem_cells, charAt_modifyHead (rows_ne_nil nl k _ text)]
          rcases Nat.lt_trichotomy j row with hlt | rfl | hlt
          · simp only [Nat.ne_of_lt hlt, Nat.not_le.2 hlt, false_and, and_false, or_false]
          · simp only [Nat.sub_self, if_true, Nat.le_refl, true_and]
            rcases Nat.lt_trichotomy i col with hi | rfl | hi
            · simp only [Nat.ne_of_lt hi, Nat.not_le.2 hi, Nat.not_le.2 (Nat.lt_succ_of_lt hi),
                false_and, or_false]
            · simp only [Nat.not_succ_le_self, false_and, or_false, if_true, true_and,
                Nat.le_refl, Nat.sub_self, Option.some.injEq]
              exact eq_comm
            · have hne : i ≠ col := Nat.ne_of_gt hi
              have hsub : i - col ≠ 0 := by omega
              have hpred : i - col - 1 = i - (col + 1) := by omega
              simp only [hne, false_and, false_or, Nat.succ_le_iff, hi, true_and, Nat.le_of_lt hi,
                hsub, if_false, hpred]
          · have hne : j ≠ row := Nat.ne_of_gt hlt
            have hsub : j - row ≠ 0 := by omega
            simp only [hne, false_and, and_false, false_or, if_false, hsub]

/-- A character is at most as far to the right and as far down as there are characters before it. -/
theorem cells_bounds : ∀ {text : List α} {col row : Nat}, (i, j, c) ∈ cells nl k col row text →
    i < col + text.length ∧ j < row + text.length
  | d :: text, col, row, h => by
      unfold cells at h
      rw [List.length_cons]
      split at h
      · have := cells_bounds h
        omega
      · rcases List.mem_cons.1 h with he | h
        · simp only [Prod.mk.injEq] at he
          omega
        · split at h
          · have := cells_bounds h
            omega
          · have := cells_bounds h
            omega

/-- Without a width the rows are the lines, which are as long as they are. -/
theorem rows_zero (nl : α) (col : Nat) (text : List α) :
    rows nl 0 col text = text.splitOn nl := by
  induction text generalizing col with
  | nil => rfl
  | cons c text ih =>
      unfold rows List.splitOn
      rw [List.splitOnP_cons_eq_if_modifyHead, if_neg (Nat.succ_ne_zero col), ih, ih]
      by_cases hc : c = nl
      · rw [if_pos hc, if_pos (beq_iff_eq.2 hc)]
        rfl
      · rw [if_neg hc, if_neg (mt beq_iff_eq.1 hc)]
        rfl

/-- The rows hold the text, but for its newlines: a row is ended by a newline or when it is full,
and only the newline is dropped. -/
theorem flatten_rows (nl : α) (k col : Nat) (text : List α) :
    (rows nl k col text).flatten = text.filter (· ≠ nl) := by
  induction text generalizing col with
  | nil => rfl
  | cons c text ih =>
      unfold rows
      by_cases hc : c = nl
      · rw [if_pos hc, List.flatten_cons, ih, List.filter_cons_of_neg (by simpa using hc)]
        rfl
      · rw [if_neg hc, List.filter_cons_of_pos (by simpa using hc)]
        split
        · rw [List.flatten_cons, ih]
          rfl
        · rw [← ih (col + 1)]
          cases hrows : rows nl k (col + 1) text with
          | nil => exact absurd hrows (rows_ne_nil nl k _ text)
          | cons line lines => rfl

/-- A row is not longer than the width, and the first one has as much less as the column it begins
in. -/
theorem length_row_le (hcol : col < k) {line : List α} (h : (rows nl k col text)[j]? = some line) :
    (if j = 0 then col else 0) + line.length ≤ k := by
  induction text generalizing col j line with
  | nil =>
      unfold rows at h
      cases j with
      | zero =>
          cases h
          exact Nat.le_of_lt hcol
      | succ j => cases h
  | cons c text ih =>
      have hbelow : ∀ {j : Nat} {line : List α}, (rows nl k 0 text)[j]? = some line →
          line.length ≤ k := by
        intro j line h
        have hle := ih (Nat.zero_lt_of_lt hcol) h
        rwa [ite_self, Nat.zero_add] at hle
      unfold rows at h
      split at h
      · cases j with
        | zero =>
            cases h
            exact Nat.le_of_lt hcol
        | succ j => simpa using hbelow h
      · split at h
        · cases j with
          | zero =>
              cases h
              exact hcol
          | succ j => simpa using hbelow h
        · next hk =>
            cases hrows : rows nl k (col + 1) text with
            | nil => exact absurd hrows (rows_ne_nil nl k _ text)
            | cons first lines =>
                rw [hrows, List.modifyHead_cons] at h
                have hle := fun j line => @ih (col + 1) j (Nat.lt_of_le_of_ne hcol hk) line
                rw [hrows] at hle
                cases j with
                | zero =>
                    cases h
                    have hfirst := hle 0 first rfl
                    rw [if_pos rfl] at hfirst ⊢
                    rw [List.length_cons]
                    omega
                | succ j => exact hle (j + 1) line h

/-- The cursor stands right behind the last row, in the row of its number. -/
theorem cursor_eq (nl : α) (k col row : Nat) (text : List α) :
    ∃ line, (rows nl k col text).getLast? = some line ∧ cursor nl k col row text =
      ((if (rows nl k col text).length = 1 then col else 0) + line.length,
        row + ((rows nl k col text).length - 1)) := by
  induction text generalizing col row with
  | nil => exact ⟨[], rfl, rfl⟩
  | cons c text ih =>
      -- a row that is ended is followed by the rows of the rest
      have hended : ∀ first : List α, ∃ line,
          (first :: rows nl k 0 text).getLast? = some line ∧ cursor nl k 0 (row + 1) text =
            ((if (first :: rows nl k 0 text).length = 1 then col else 0) + line.length,
              row + ((first :: rows nl k 0 text).length - 1)) := by
        intro first
        obtain ⟨line, hline, hcursor⟩ := ih 0 (row + 1)
        have hpos := List.length_pos_iff.2 (rows_ne_nil nl k 0 text)
        refine ⟨line, by rw [List.getLast?_cons, hline]; rfl, ?_⟩
        rw [hcursor, ite_self, List.length_cons, if_neg (by omega)]
        congr 1
        omega
      unfold rows cursor
      split
      · rw [if_pos (.inl ‹_›)]
        exact hended []
      · split
        · rw [if_pos (.inr ‹_›)]
          exact hended [c]
        · rw [if_neg (by rintro (h | h) <;> contradiction)]
          obtain ⟨line, hline, hcursor⟩ := ih (col + 1) row
          cases hrows : rows nl k (col + 1) text with
          | nil => exact absurd hrows (rows_ne_nil nl k _ text)
          | cons first lines =>
              rw [hrows] at hline hcursor
              rw [hcursor]
              cases lines with
              | nil =>
                  cases hline
                  refine ⟨c :: first, rfl, ?_⟩
                  simp
                  omega
              | cons second lines => exact ⟨line, hline, by simp⟩

/-- The cursor is in one of the rows. -/
theorem cursor_row_lt (nl : α) (k : Nat) (text : List α) :
    (cursor nl k 0 0 text).2 < (rows nl k 0 text).length := by
  obtain ⟨last, -, hcursor⟩ := cursor_eq nl k 0 0 text
  have hpos := List.length_pos_iff.2 (rows_ne_nil nl k 0 text)
  rw [hcursor]
  dsimp only
  omega

/-- The cursor is in a row if that is the last one, and then behind its characters. -/
theorem cursor_eq_iff {i j : Nat} {first : List α} (h : (rows nl k 0 text)[j]? = some first) :
    cursor nl k 0 0 text = (i, j) ↔
      j + 1 = (rows nl k 0 text).length ∧ i = first.length := by
  obtain ⟨last, hlast, hcursor⟩ := cursor_eq nl k 0 0 text
  have hlt := (List.getElem?_eq_some_iff.1 h).1
  rw [hcursor, ite_self, Prod.mk.injEq, Nat.zero_add, Nat.zero_add]
  rw [List.getLast?_eq_getElem?] at hlast
  constructor
  · rintro ⟨hcol, hrow⟩
    rw [hrow, h] at hlast
    cases hlast
    exact ⟨by omega, hcol.symm⟩
  · rintro ⟨hrow, hcol⟩
    rw [← hrow, Nat.add_sub_cancel, h] at hlast
    cases hlast
    exact ⟨hcol.symm, by omega⟩

/-- There is room for the next character: the cursor is never behind the last column. -/
theorem cursor_lt (hcol : col < k) : (cursor nl k col row text).1 < k := by
  induction text generalizing col row with
  | nil => exact hcol
  | cons c text ih =>
      unfold cursor
      split
      · exact ih (Nat.zero_lt_of_lt hcol)
      · next hnext => exact ih (Nat.lt_of_le_of_ne hcol fun hk => hnext (.inr hk))

end

end TextGrid
