import Mathlib.Data.List.DropRight
import Mathlib.Data.List.GetD
import OnkenOS.Apps.TerminalFits

/-!
# The line editor and Tab

What Tab does to the line, in terms of the line: it looks for names that start with the part of
the line behind the last space (`currentWord`), among the commands and applications in the first
word and among the files in the others (`candidates`), and a single candidate is appended as far
as the buffer has room (`completedLine`). The buffer keeps its shape along every run of keys
(`terminal_line_editor`).
-/

namespace OnkenOS

open Machine

/-- The line behind its last space. -/
def currentWord (line : List UInt8) : List UInt8 := line.rtakeWhile (· ≠ 32)

/-- The names that Tab finds for the line. -/
def candidates (env : Env) (files : Files) (line : List UInt8) : List (List UInt8) :=
  ((if 32 ∈ line then fileNames files else commandNames env.registry).map cstr).filter
    (currentWord line <+: ·)

/-- The line with the rest of the name, as many characters as fit in 126, and a space if that
leaves room for one. -/
def completedLine (line name : List UInt8) : List UInt8 :=
  let line := line ++ (name.drop (currentWord line).length).take (126 - line.length)
  if line.length < 127 then line ++ [32] else line

/-- `cmd_len` is at most 127, and the zeros of `cmd_buf` are its bytes from there on. -/
structure Terminal.LineOk (t : Terminal) : Prop where
  size : t.cmdBuf.length = maxCmd
  short : t.cmdLen ≤ 127
  zero_iff : ∀ i < maxCmd, t.cmdBuf.getD i 0 = 0 ↔ t.cmdLen ≤ i

section
variable {s p line : List UInt8}

/-! ## Strings -/

/-- `strncmp` with the length of the second string tells if the first one starts with it. -/
theorem strncmp_length_iff (hp : 0 ∉ p) (s : List UInt8) :
    strncmp s p p.length = 0 ↔ p <+: cstr s := by
  induction p generalizing s with
  | nil => simp [strncmp]
  | cons d p ih =>
      obtain ⟨hd, hrest⟩ := not_or.1 (fun h => hp (List.mem_cons.2 h))
      cases s with
      | nil =>
          have hpos : (0 : Int) - d.toNat ≠ 0 := fun h => hd ((toNat_sub_eq_zero 0 d).1 h)
          simpa [strncmp] using hpos
      | cons c s =>
          rw [List.length_cons, strncmp, cstr_cons]
          by_cases hcd : c = d
          · subst hcd
            simp [Ne.symm hd, ih hrest]
          · have hne : (c.toNat : Int) - d.toNat ≠ 0 := fun h => hcd ((toNat_sub_eq_zero c d).1 h)
            have hpre : ¬ d :: p <+: (if c = 0 then [] else c :: cstr s) := by
              split
              · simp
              · simp [List.cons_prefix_cons, Ne.symm hcd]
            simp [hcd, hne, hpre]

/-- The names that `strncmp` accepts, as strings, are those that begin with the word. -/
theorem map_cstr_filter (hp : 0 ∉ p) (names : List (List UInt8)) :
    (names.filter fun name => strncmp name p p.length == 0).map cstr =
      (names.map cstr).filter (p <+: ·) := by
  rw [List.filter_map]
  refine congrArg (List.map cstr) (List.filter_congr fun name _ => ?_)
  rw [Bool.eq_iff_iff, beq_iff_eq, strncmp_length_iff hp]
  simp

/-! ## The current word -/

/-- The line up to its last space. -/
def beforeWord (line : List UInt8) : List UInt8 := line.rdropWhile (· ≠ 32)

/-- The line is what is before its last word, and the word. -/
@[simp] theorem beforeWord_append_currentWord (line : List UInt8) :
    beforeWord line ++ currentWord line = line := List.rdropWhile_append_rtakeWhile

/-- Nothing is before the word if the line has no space. -/
theorem beforeWord_eq_nil_iff : beforeWord line = [] ↔ 32 ∉ line := by
  unfold beforeWord
  rw [List.rdropWhile_eq_nil_iff]
  simp only [ne_eq, decide_eq_true_eq]
  exact ⟨fun h hmem => h 32 hmem rfl, fun h c hc he => h (he ▸ hc)⟩

/-- The loop that looks for the start of the word finds it. -/
theorem wordStart_eq (line rest : List UInt8) :
    wordStart (line ++ rest) line.length = (beforeWord line).length := by
  unfold beforeWord
  induction line using List.reverseRecOn generalizing rest with
  | nil => simp [wordStart]
  | append_singleton line c ih =>
      have hlast : (line ++ [c] ++ rest).getD line.length 0 = c := by
        simp [List.getD_eq_getElem?_getD]
      rw [List.length_append, List.length_singleton, wordStart, hlast]
      by_cases hc : c = 32
      · rw [if_neg (not_not.2 hc), List.rdropWhile_concat_neg _ _ _ (by simpa using hc)]
        simp
      · rw [if_pos hc, List.rdropWhile_concat_pos _ _ _ (by simpa using hc), List.append_assoc]
        exact ih ([c] ++ rest)

end

/-! ## Tab -/

section
variable {t : Terminal} {line m : List UInt8} (env : Env)

/-- On an empty line every command is a candidate. -/
theorem two_le_candidates_nil (files : Files) : 2 ≤ (candidates env files []).length := by
  simp [candidates, currentWord, commandNames]

/-- Tab matches the current word with the candidates, at most 32 of them: commands and applications
for the first word, files for any other. -/
theorem tabMatches_line (files : Files) (h : t.EditsLine line) :
    strlen (t.cmdBuf.drop (wordStart t.cmdBuf t.cmdLen)) = (currentWord line).length ∧
      (tabMatches env files t.cmdBuf (wordStart t.cmdBuf t.cmdLen)).map cstr =
        (candidates env files line).take 32 := by
  have hstart : wordStart t.cmdBuf t.cmdLen = (beforeWord line).length := by
    rw [h.buf, h.length]
    exact wordStart_eq line _
  have hzero : 0 ∉ currentWord line := fun hmem =>
    h.zero_not_mem ((List.rtakeWhile_suffix _ _).subset hmem)
  have hbuf : t.cmdBuf = beforeWord line ++ (currentWord line ++
      List.replicate (maxCmd - line.length) 0) := by
    rw [← List.append_assoc, beforeWord_append_currentWord]
    exact h.buf
  have hcstr : cstr (t.cmdBuf.drop (beforeWord line).length) = currentWord line := by
    rw [hbuf, List.drop_left, cstr_append hzero, cstr_zeros, List.append_nil]
  rw [hstart, strlen, hcstr]
  refine ⟨rfl, ?_⟩
  simp only [tabMatches, candidates, hcstr, List.map_take, map_cstr_filter hzero,
    List.length_eq_zero_iff, beforeWord_eq_nil_iff, ite_not]

/-- Tab completes the only candidate, and adds a space: the word is replaced by the candidate, as
far as the line has room. -/
theorem handleTab_single {s : Shell} (h : s.term.EditsLine line)
    (hone : candidates env s.files line = [m]) :
    (handleTab env s).term.EditsLine (completedLine line m) := by
  obtain ⟨hlen, hmatches⟩ := tabMatches_line env s.files h
  rw [hone] at hmatches
  obtain ⟨name, htab, rfl⟩ := List.map_eq_singleton_iff.1 hmatches
  have hpre : currentWord line <+: cstr name := by
    have hmem : cstr name ∈ candidates env s.files line := hone ▸ List.mem_singleton_self _
    simpa using (List.mem_filter.1 hmem).2
  have hpos : s.term.cmdLen > 0 := by
    rw [h.length]
    refine List.length_pos_iff.2 ?_
    rintro rfl
    have htwo := two_le_candidates_nil env s.files
    rw [hone] at htwo
    simp at htwo
  have hterm : (handleTab env s).term =
      typeChar (complete s.term (name.drop (currentWord line).length)) 32 := by
    unfold handleTab
    rw [if_pos hpos]
    dsimp only
    rw [h.terminate, htab, hlen]
  have hline := h.complete (name.drop (currentWord line).length)
  rw [cstr_drop hpre.length_le] at hline
  rw [hterm]
  exact hline.typeChar (by decide)

/-- Tab leaves the line alone if there are several candidates, and prints them. -/
theorem handleTab_several {s : Shell} (h : s.term.EditsLine line)
    (hmany : 2 ≤ (candidates env s.files line).length) :
    (handleTab env s).term.EditsLine line := by
  obtain ⟨-, hmatches⟩ := tabMatches_line env s.files h
  have hcount := congrArg List.length hmatches
  rw [List.length_map, List.length_take] at hcount
  unfold handleTab
  split
  · dsimp only
    rw [h.terminate]
    split
    · next hnone =>
        rw [hnone, List.length_nil] at hcount
        omega
    · next hsome =>
        rw [hsome, List.length_singleton] at hcount
        omega
    · exact showMatches_line (echoLine_line h) _ _
  · exact h

/-! ## Runs of keys -/

/-- A buffer that holds a line has its zeros from `cmd_len` on. -/
theorem Terminal.EditsLine.lineOk (h : t.EditsLine line) : t.LineOk := by
  have hshort := h.short
  refine ⟨?_, h.length.trans_le hshort, fun i hi => ?_⟩
  · rw [h.buf, List.length_append, List.length_replicate]
    change _ + (128 - _) = 128
    omega
  · rw [h.buf, h.length]
    rcases Nat.lt_or_ge i line.length with hlt | hge
    · rw [List.getD_append _ _ _ _ hlt, List.getD_eq_getElem _ _ hlt]
      refine iff_of_false (fun h0 => h.zero_not_mem ?_) (Nat.not_le.2 hlt)
      exact h0 ▸ List.getElem_mem hlt
    · rw [List.getD_append_right _ _ _ _ hge, List.getD_eq_getElem?_getD,
        List.getElem?_getD_replicate_default_eq]
      exact iff_of_true rfl hge

/-- The first `cmd_len` bytes of the buffer are the line. -/
theorem Terminal.EditsLine.take_buf (h : t.EditsLine line) :
    t.cmdBuf.take t.cmdLen = line := by
  rw [h.buf, h.length, List.take_left]

/-- Along every sequence of keys after a launch, `cmd_buf` holds `cmd_len` characters and zeros, and
Tab with one candidate completes it. The invariant is kept by every key; what Tab does follows from
it in each state that is reached. -/
theorem terminal_line_editor (env : Env) (s : Shell) (keys : List KeyEvent) :
    (run keyStep (terminalLaunch env s).term keys).LineOk ∧
      ∀ (line m : List UInt8) (e : KeyEvent),
        (run keyStep (terminalLaunch env s).term keys).cmdBuf.take
          (run keyStep (terminalLaunch env s).term keys).cmdLen = line →
        e.active = true → e.key = 9 → candidates e.env e.files line = [m] →
        (keyStep (run keyStep (terminalLaunch env s).term keys) e).EditsLine
          (completedLine line m) := by
  have hstep : ∀ (t : Terminal) (e : KeyEvent), (∃ line, t.EditsLine line) →
      ∃ line, (keyStep t e).EditsLine line := fun _ e h => terminalHandleKey_line h e.key
  obtain ⟨line, hline⟩ := run_invariant hstep keys ⟨[], terminalLaunch_line env s⟩
  generalize run keyStep (terminalLaunch env s).term keys = t at hline ⊢
  refine ⟨hline.lineOk, ?_⟩
  rintro _ m ⟨env, files, active, key⟩ rfl rfl rfl hone
  rw [hline.take_buf] at hone ⊢
  exact handleTab_single env (s := ⟨t, files, false, []⟩) hline hone

/-- A run of the theorem: `hex` and Tab give the line `hexdump`, with a space behind it. -/
theorem terminal_line_editor_hexdump :
    (keyStep
      (run keyStep (terminalLaunch Env.zero ⟨Terminal.static, Files.zero, false, []⟩).term
        ((str "hex").map fun c => ⟨Env.zero, Files.zero, true, c⟩))
      ⟨Env.zero, Files.zero, true, 9⟩).EditsLine (str "hexdump ") := by
  have hlaunch := terminalLaunch_line Env.zero ⟨Terminal.static, Files.zero, false, []⟩
  have hchars : ∀ c ∈ str "hex", 32 ≤ c ∧ c < 127 := by decide +kernel
  have htyped := run_typed Env.zero Files.zero hlaunch hchars (by decide)
  have hline : completedLine (str "hex") (str "hexdump") = str "hexdump " := by decide +kernel
  have hone : candidates Env.zero Files.zero (str "hex") = [str "hexdump"] := by decide +kernel
  rw [← hline]
  exact (terminal_line_editor Env.zero ⟨Terminal.static, Files.zero, false, []⟩
    ((str "hex").map fun c => ⟨Env.zero, Files.zero, true, c⟩)).2 (str "hex") (str "hexdump")
    ⟨Env.zero, Files.zero, true, 9⟩ htyped.1.take_buf rfl rfl hone

end

end OnkenOS
