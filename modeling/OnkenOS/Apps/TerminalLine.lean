import OnkenOS.Apps.Terminal

/-!
# The line of the terminal

Between keys `cmd_buf` holds the line that is being edited, and zeros behind it
(`Terminal.EditsLine`). Every key keeps it so, and Enter starts an empty line.
-/

namespace OnkenOS

/-- `cmd_buf` holds `line`, of `cmd_len` non-zero bytes, and zeros. -/
structure Terminal.EditsLine (t : Terminal) (line : List UInt8) : Prop where
  zero_not_mem : 0 ∉ line
  length : t.cmdLen = line.length
  short : line.length ≤ 127
  buf : t.cmdBuf = line ++ List.replicate (maxCmd - line.length) 0

section
variable {t : Terminal} {line : List UInt8} {c : UInt8}

/-- An array of zeros is the empty string. -/
theorem cstr_zeros (n : Nat) : cstr (List.replicate n 0) = [] := by
  cases n with
  | zero => rfl
  | succ n => rw [List.replicate_succ, cstr_cons, if_pos rfl]

/-- As a string of C the buffer is the line. -/
theorem Terminal.EditsLine.cstr_buf (h : t.EditsLine line) : cstr t.cmdBuf = line := by
  rw [h.buf, cstr_append h.zero_not_mem, cstr_zeros, List.append_nil]

/-- `cmd_len` is the length of that string. -/
theorem Terminal.EditsLine.strlen_buf (h : t.EditsLine line) : strlen t.cmdBuf = t.cmdLen := by
  rw [strlen, h.cstr_buf, h.length]

/-- Storing behind a line. -/
theorem set_append_length (line rest : List UInt8) (c d : UInt8) :
    (line ++ d :: rest).set line.length c = line ++ c :: rest := by
  rw [List.set_append_right _ _ (Nat.le_refl _), Nat.sub_self, List.set_cons_zero]

/-- There is a zero behind the line, as it has at most 127 characters. -/
theorem Terminal.EditsLine.buf_eq (h : t.EditsLine line) :
    t.cmdBuf = line ++ 0 :: List.replicate (127 - line.length) 0 := by
  have hshort := h.short
  rw [h.buf, ← List.replicate_succ]
  exact congrArg (fun n => line ++ List.replicate n 0) (by change 128 - _ = _; omega)

/-- The line is terminated already, so storing the NUL again changes nothing. -/
theorem Terminal.EditsLine.terminate (h : t.EditsLine line) : terminate t = t := by
  have hbuf : t.cmdBuf.set t.cmdLen 0 = t.cmdBuf := by
    rw [h.length, h.buf_eq, set_append_length]
  unfold OnkenOS.terminate
  rw [hbuf]

/-- Storing a character behind the line, where a zero is: the zeros behind it are still zeros. -/
theorem Terminal.EditsLine.push (h : t.EditsLine line) (hc : c ≠ 0) (hroom : line.length < 127) :
    ({ t with cmdBuf := t.cmdBuf.set t.cmdLen c, cmdLen := t.cmdLen + 1 } :
      Terminal).EditsLine (line ++ [c]) where
  zero_not_mem hmem :=
    (List.mem_append.1 hmem).elim h.zero_not_mem fun h0 => hc (List.mem_singleton.1 h0).symm
  length := by rw [List.length_append, h.length]; rfl
  short := by rw [List.length_append]; exact hroom
  buf := by
    have hpad : maxCmd - (line ++ [c]).length = 127 - line.length := by
      rw [List.length_append]
      change 128 - (line.length + 1) = _
      omega
    change t.cmdBuf.set t.cmdLen c = _
    rw [h.length, h.buf_eq, set_append_length, hpad, List.append_assoc]
    rfl

/-- A line without characters. -/
theorem editsLine_nil (t : Terminal) :
    ({ t with cmdLen := 0, cmdBuf := List.replicate maxCmd 0 } : Terminal).EditsLine [] :=
  ⟨List.not_mem_nil, rfl, Nat.zero_le _, rfl⟩

/-- A character is added at the end, if there is room. -/
theorem Terminal.EditsLine.typeChar (h : t.EditsLine line) (hc : c ≠ 0) :
    (typeChar t c).EditsLine (if line.length < 127 then line ++ [c] else line) := by
  unfold OnkenOS.typeChar
  rw [h.length, show maxCmd - 1 = 127 from rfl]
  split
  · next hroom =>
      rw [← h.length]
      exact h.push hc hroom
  · exact h

/-- A completion is added as far as there is room for it and a space. -/
theorem Terminal.EditsLine.complete (h : t.EditsLine line) (completion : List UInt8) :
    (complete t completion).EditsLine (line ++ (cstr completion).take (126 - line.length)) := by
  induction completion generalizing t line with
  | nil =>
      rw [cstr_nil, List.take_nil, List.append_nil]
      exact h
  | cons c completion ih =>
      rw [OnkenOS.complete, h.length, cstr_cons]
      by_cases hc : c = 0
      · rw [if_neg (fun hcon => hcon.1 hc), if_pos hc, List.take_nil, List.append_nil]
        exact h
      rw [if_neg hc]
      split
      · next hroom =>
          have hlt : line.length < 126 := hroom.2
          have hnext := ih (h.push hc (Nat.lt_trans hlt (by omega)))
          rw [List.length_append, List.append_assoc] at hnext
          rw [show 126 - line.length = 126 - (line.length + 1) + 1 by omega, List.take_succ_cons]
          exact h.length ▸ hnext
      · next hroom =>
          have hfull : ¬ line.length < 126 := fun hlt => hroom ⟨hc, hlt⟩
          rw [show 126 - line.length = 0 by omega, List.take_zero, List.append_nil]
          exact h

/-- Backspace takes the last character, by storing a zero there, or does nothing on the empty line.
-/
theorem Terminal.EditsLine.handleBackspace (h : t.EditsLine line) :
    (handleBackspace t).EditsLine line.dropLast := by
  unfold OnkenOS.handleBackspace
  have hlen := h.length
  rcases List.eq_nil_or_concat' line with rfl | ⟨front, c, rfl⟩
  · rw [if_neg (by rw [hlen]; exact Nat.lt_irrefl 0)]
    exact h
  · have hshort := h.short
    rw [List.length_append, List.length_singleton] at hlen hshort
    rw [if_pos (by omega), List.dropLast_concat]
    refine ⟨fun hmem => h.zero_not_mem (List.mem_append_left _ hmem), ?_, by omega, ?_⟩
    · change t.cmdLen - 1 = _
      omega
    · have hpad : maxCmd - front.length = 127 - (front ++ [c]).length + 1 + 1 := by
        rw [List.length_append, List.length_singleton]
        change 128 - _ = _
        omega
      change t.cmdBuf.set (t.cmdLen - 1) 0 = _
      rw [h.buf_eq, List.append_assoc, List.singleton_append, hlen, Nat.add_sub_cancel,
        set_append_length, hpad, List.replicate_succ, List.replicate_succ]

/-! ## Keys -/

/-- A message leaves the files. -/
theorem say_files (s : Shell) (msg : String) (color : BitVec 32) :
    (s.say msg color).files = s.files := rfl

/-- Output leaves the line alone. -/
theorem Shell.print_line {s : Shell} (h : s.term.EditsLine line) (msg : List UInt8)
    (color : BitVec 32) : (s.print msg color).term.EditsLine line :=
  ⟨h.zero_not_mem, h.length, h.short, h.buf⟩

/-- The echo of the line leaves the line. -/
theorem echoLine_line {s : Shell} (h : s.term.EditsLine line) :
    (echoLine s).term.EditsLine line :=
  Shell.print_line (s := (s.sprintf 128 _ _).1) h _ _

/-- The matches that Tab prints leave the line. -/
theorem showMatches_line {s : Shell} (h : s.term.EditsLine line) (out : List UInt8)
    (ms : List (List UInt8)) : (showMatches s out ms).term.EditsLine line := by
  induction ms generalizing s out with
  | nil =>
      rw [showMatches]
      split
      · exact Shell.print_line h out _
      · exact h
  | cons m ms ih =>
      by_cases hfull : strlen out + strlen m + 2 ≥ 127
      · rw [showMatches, if_pos hfull]
        exact ih (Shell.print_line h out _) _
      · rw [showMatches, if_neg hfull]
        exact ih h _

/-- Every key leaves a line in the buffer: typed, shortened, completed or empty again. -/
theorem terminalHandleKey_line {env : Env} {active : Bool} {s : Shell}
    (h : ∃ line, s.term.EditsLine line) (c : UInt8) :
    ∃ line, (terminalHandleKey env active c s).term.EditsLine line := by
  obtain ⟨line, hline⟩ := h
  unfold terminalHandleKey
  split
  · exact ⟨line, hline⟩
  split
  · exact ⟨[], editsLine_nil _⟩
  split
  · exact ⟨_, hline.handleBackspace⟩
  split
  · unfold handleTab
    split
    · dsimp only
      rw [hline.terminate]
      split
      · exact ⟨line, hline⟩
      · exact ⟨_, (hline.complete _).typeChar (by decide)⟩
      · exact ⟨line, showMatches_line (echoLine_line hline) _ _⟩
    · exact ⟨line, hline⟩
  split
  · next hprint =>
      refine ⟨_, hline.typeChar fun h0 => ?_⟩
      rw [h0] at hprint
      exact absurd hprint.1 (by decide)
  · exact ⟨line, hline⟩

end

end OnkenOS
