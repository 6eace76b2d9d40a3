import OnkenOS.Apps.TerminalCat

/-!
# What `hexdump` prints

A row is to start with its offset, and the bytes follow. `xsprintf` knows no `%x`: it writes the
percent sign and the letter, without the flag and the width before it, and the offset is printed in
no row. So `hexdump` shows what it is meant to only of an empty file (`hexdump_shows_iff`).
-/

namespace OnkenOS

/-- `i` in eight hexadecimal digits. -/
def hexOffset (i : Nat) : List UInt8 :=
  (List.range 8).map fun k => hexDigit (i / 16 ^ (7 - k) % 16)

/-- The row of the bytes from `i` on: what is printed for the offset, the cells and the gutter. -/
def hexRow (offset : List UInt8) (f : VfsFile) (i : Nat) : List UInt8 :=
  offset ++ str "  " ++ hexCells f i ++ str " |" ++ hexGutter f i ++ str "|"

/-- The last line of a dump that is cut off. -/
def truncatedNote : List UInt8 := str "... (truncated)"

/-- The lines are the rows of the file from the offset 0 on, each with its offset: all of them, or
some and the note that the rest is missing. -/
def HexdumpShows (f : VfsFile) (lines : List (List UInt8)) : Prop :=
  ∃ n note, lines = (List.range n).map (fun k => hexRow (hexOffset (16 * k)) f (16 * k)) ++ note ∧
    16 * n < f.size + 16 ∧ (note = [] ∧ f.size ≤ 16 * n ∨ note = [truncatedNote])

/-- The lines that the command prints are those of the file. -/
def HexdumpWhole (env : Env) (s : Shell) (cmd : List UInt8) (f : VfsFile) : Prop :=
  HexdumpShows f (printedLines ((execCommand env cmd s).effects.drop s.effects.length))

/-! ## A row -/

/-- `%x` is not known to `xsprintf`. -/
theorem xsprintf_offset (i : Nat) : xsprintf (str "%08x  ") [intArg i] = some (str "%x  ") := rfl

/-- A digit is a printable character. -/
theorem hexDigit_ne_zero {n : Nat} (hn : n < 16) : hexDigit n ≠ 0 := by
  have hall : ∀ n < 16, hexDigit n ≠ 0 := by decide
  exact hall n hn

/-- The cells of a row are digits and blanks, so no NUL ends the row in them. -/
theorem zero_not_mem_hexCells (f : VfsFile) (i : Nat) : 0 ∉ hexCells f i := by
  intro hmem
  obtain ⟨j, -, hj⟩ := List.mem_flatMap.1 hmem
  rcases List.mem_append.1 hj with hcell | hgap
  · have hbyte := (f.data (i + j)).toNat_lt
    split at hcell
    · have hhigh := hexDigit_ne_zero (n := (f.data (i + j)).toNat / 16) (by omega)
      have hlow := hexDigit_ne_zero (n := (f.data (i + j)).toNat % 16) (by omega)
      simp [hhigh.symm, hlow.symm] at hcell
    · simp at hcell
  · split at hgap <;> simp at hgap

/-- The gutter shows a dot for what is not printable, so there is no NUL in it either. -/
theorem zero_not_mem_hexGutter (f : VfsFile) (i : Nat) : 0 ∉ hexGutter f i := by
  intro hmem
  obtain ⟨j, -, hj⟩ := List.mem_map.1 hmem
  split at hj
  · next hprint => exact absurd (hj ▸ hprint.1) (by decide)
  · cases hj

/-- A row begins with its offset. -/
theorem head?_hexRow (c : UInt8) (offset : List UInt8) (f : VfsFile) (i : Nat) :
    (hexRow (c :: offset) f i).head? = some c := rfl

/-- A row is printed whole: there is no NUL in its parts. -/
theorem zero_not_mem_hexRow {offset : List UInt8} (hoffset : 0 ∉ offset) (f : VfsFile) (i : Nat) :
    0 ∉ hexRow offset f i := by
  have hcells := zero_not_mem_hexCells f i
  have hgutter := zero_not_mem_hexGutter f i
  have hspaces : (0 : UInt8) ∉ str "  " := by decide
  have hbar : (0 : UInt8) ∉ str " |" := by decide
  have hend : (0 : UInt8) ∉ str "|" := by decide
  simp only [hexRow, List.mem_append, not_or]
  exact ⟨⟨⟨⟨⟨hoffset, hspaces⟩, hcells⟩, hbar⟩, hgutter⟩, hend⟩

/-! ## The rows -/

/-- The lines of the rows from `i` on, at most `rows` of them. -/
def hexdumpLines (f : VfsFile) : Nat → Nat → List (List UInt8)
  | 0, _ => []
  | rows + 1, i =>
      if i < f.size then
        hexRow (str "%x") f i ::
          if i > 16 * 40 then [truncatedNote] else hexdumpLines f rows (i + 16)
      else []

/-- What printing a row adds to the effects. -/
def rowEffects (f : VfsFile) (i : Nat) : List Effect :=
  [.sprintf 128 (some (str "%x  ")), .print (hexRow (str "%x") f i) 0xFFFFFF]

/-- What is printed by some effects after others. -/
theorem printedLines_append (l₁ l₂ : List Effect) :
    printedLines (l₁ ++ l₂) = printedLines l₁ ++ printedLines l₂ := List.filterMap_append

/-- A row prints one line, which begins with the two characters `%x`: `xsprintf` has no such
conversion. -/
theorem printedLines_row (f : VfsFile) (i : Nat) :
    printedLines (rowEffects f i) = [hexRow (str "%x") f i] := by
  have hrow : 0 ∉ hexRow (str "%x") f i := zero_not_mem_hexRow (by decide) f i
  simp [printedLines, rowEffects, cstr_of_zero_not_mem hrow]

/-- The loop prints a row, and then the note or the other rows. -/
theorem hexdumpRows_succ {f : VfsFile} {i : Nat} (hi : i < f.size) (rows : Nat) (s : Shell) :
    ∃ s' : Shell, s'.effects = s.effects ++ rowEffects f i ∧ hexdumpRows f (rows + 1) i s =
      if i > 16 * 40 then s'.say "... (truncated)" 0x888888
      else hexdumpRows f rows (i + 16) s' := by
  have hbuf : str "%x  " ++ hexCells f i ++ str " |" ++ hexGutter f i ++ str "|" =
      hexRow (str "%x") f i := rfl
  rw [hexdumpRows, if_pos hi]
  dsimp only [Shell.sprintf]
  rw [xsprintf_offset, Option.getD_some, hbuf]
  exact ⟨_, List.append_assoc _ _ _, rfl⟩

/-- The loop keeps what was printed before, and prints its own behind it. -/
theorem hexdumpRows_lines (f : VfsFile) (rows i : Nat) (s : Shell) :
    ∃ new, (hexdumpRows f rows i s).effects = s.effects ++ new ∧
      printedLines new = hexdumpLines f rows i := by
  induction rows generalizing i s with
  | zero => exact ⟨[], (List.append_nil _).symm, rfl⟩
  | succ rows ih =>
      rw [hexdumpLines]
      split
      · next hi =>
          obtain ⟨s', heffects, hstep⟩ := hexdumpRows_succ hi rows s
          rw [hstep]
          split
          · refine ⟨rowEffects f i ++ [.print truncatedNote 0x888888], ?_, ?_⟩
            · change s'.effects ++ _ = _
              rw [heffects, List.append_assoc]
              rfl
            · rw [printedLines_append, printedLines_row]
              rfl
          · obtain ⟨new, hnext, hnew⟩ := ih (i + 16) s'
            refine ⟨rowEffects f i ++ new, ?_, ?_⟩
            · rw [hnext, heffects, List.append_assoc]
            · rw [printedLines_append, printedLines_row, hnew]
              rfl
      · next hi => exact ⟨[], by rw [hexdumpRows, if_neg hi, List.append_nil], rfl⟩

/-- Every line but the note is the row of its place, with `%x` where the offset should stand. -/
theorem hexdumpLines_row (f : VfsFile) (rows i k : Nat) {line : List UInt8}
    (hline : (hexdumpLines f rows i)[k]? = some line) :
    line = hexRow (str "%x") f (i + 16 * k) ∨ line = truncatedNote := by
  induction rows generalizing i k with
  | zero => cases hline
  | succ rows ih =>
      rw [hexdumpLines] at hline
      split at hline
      · cases k with
        | zero => exact .inl (Option.some.inj hline).symm
        | succ k =>
            rw [List.getElem?_cons_succ] at hline
            split at hline
            · exact .inr (List.mem_singleton.1 (List.mem_of_getElem? hline))
            · have hnext := ih (i + 16) k hline
              rwa [show i + 16 + 16 * k = i + 16 * (k + 1) by omega] at hnext
      · cases hline

/-! ## The command -/

/-- `hexdump` of a file that is there runs its loop over the contents of that file, with rounds
enough for all its rows. -/
theorem execCommand_hexdump (env : Env) (s : Shell) {cmd name : List UInt8} {i : Fin maxFiles}
    (hline : FileLine (str "hexdump") cmd name) (hopen : vfsOpen s.files name = some i) :
    execCommand env cmd s = hexdumpRows (s.files i) ((s.files i).size + 1) 0 s := by
  obtain ⟨rest, rest', hexec, hname⟩ :=
    hline.execCommand env ⟨by decide, by decide⟩ (b := .hexdump) rfl s
  rw [hexec]
  change cmdHexdump _ s = _
  unfold cmdHexdump withArg
  rw [hname]
  dsimp only [withFile]
  rw [hopen]

/-- The lines of `hexdump` are those of its rows, and nothing else is printed. -/
theorem hexdump_lines (f : VfsFile) (s : Shell) :
    printedLines ((hexdumpRows f (f.size + 1) 0 s).effects.drop s.effects.length) =
      hexdumpLines f (f.size + 1) 0 := by
  obtain ⟨new, heffects, hnew⟩ := hexdumpRows_lines f (f.size + 1) 0 s
  rw [heffects, List.drop_left, hnew]

/-- No line with `%x` in front is a row with its offset, or the note. -/
theorem hexdumpShows_iff (f : VfsFile) :
    HexdumpShows f (hexdumpLines f (f.size + 1) 0) ↔ f.size = 0 := by
  constructor
  · rintro ⟨n, note, hlines, -, hnote⟩
    by_contra hsize
    rw [hexdumpLines, if_pos (by omega)] at hlines
    have hfirst := congrArg (fun l => l.head?.bind List.head?) hlines
    cases n with
    | zero =>
        rcases hnote with ⟨rfl, -⟩ | rfl
        · cases hlines
        · have hdot : some (37 : UInt8) = truncatedNote.head? := hfirst
          exact absurd hdot (by decide)
    | succ n =>
        have hzero : (hexRow (hexOffset 0) f 0).head? = some 48 := head?_hexRow _ _ f 0
        rw [List.range_succ_eq_map] at hfirst
        have hdigit : some (37 : UInt8) = (hexRow (hexOffset 0) f 0).head? := hfirst
        rw [hzero] at hdigit
        exact absurd hdigit (by decide)
  · intro hsize
    refine ⟨0, [], ?_, by omega, .inl ⟨rfl, by omega⟩⟩
    rw [hexdumpLines, if_neg (by omega)]
    rfl

/-- **What `hexdump` shows.** For every state of the RAM disk and every `hexdump` of a file, the
rows have their offsets exactly if there is no row: `xsprintf` does not know `%08x`, and puts two
characters of the format where the offset should be. -/
theorem hexdump_shows_iff (env : Env) (s : Shell) {cmd name : List UInt8} {i : Fin maxFiles}
    (hline : FileLine (str "hexdump") cmd name) (hopen : vfsOpen s.files name = some i) :
    HexdumpWhole env s cmd (s.files i) ↔ (s.files i).size = 0 := by
  unfold HexdumpWhole
  rw [execCommand_hexdump env s hline hopen, hexdump_lines]
  exact hexdumpShows_iff _

/-! ## A dump of no bytes and one of a byte -/

/-- The line `hexdump a` names the file `a`. -/
theorem hexdumpLine_a : FileLine (str "hexdump") (str "hexdump a") (str "a") :=
  ⟨by decide, by decide, ⟨by decide, by decide⟩, [], [], none, spaces_nil, spaces_nil, rfl⟩

/-- `hexdump a` of an empty file, the only kind whose rows are right: there are none. -/
theorem hexdump_shows_iff_empty :
    HexdumpWhole Env.zero ⟨Terminal.static, oneFile (str "a") [], false, []⟩ (str "hexdump a")
      (oneFile (str "a") [] 0) := by
  have hname : strlen (str "a") ≤ 31 := by decide
  have htext : ([] : List UInt8).length ≤ maxFileSize := Nat.zero_le _
  refine (hexdump_shows_iff Env.zero ⟨Terminal.static, oneFile (str "a") [], false, []⟩
    hexdumpLine_a (vfsOpen_oneFile hname htext)).2 ?_
  change (oneFile (str "a") [] 0).size = 0
  exact size_oneFile hname htext

/-- The row of a file with one byte has no offset. -/
theorem hexdump_misses_offset :
    ¬ ∀ (env : Env) (s : Shell) (cmd name : List UInt8) (i : Fin maxFiles),
      FileLine (str "hexdump") cmd name → vfsOpen s.files name = some i →
        HexdumpWhole env s cmd (s.files i) := by
  intro hall
  have hname : strlen (str "a") ≤ 31 := by decide
  have htext : [(65 : UInt8)].length ≤ 16384 := by decide
  have hopen := vfsOpen_oneFile hname htext
  have hsize := size_oneFile hname htext
  generalize hs : (⟨Terminal.static, oneFile (str "a") [65], false, []⟩ : Shell) = s
  have hfiles : s.files = oneFile (str "a") [65] := by rw [← hs]
  rw [← hfiles] at hopen hsize
  have hwhole := hall Env.zero s _ _ _ hexdumpLine_a hopen
  unfold HexdumpWhole at hwhole
  rw [execCommand_hexdump _ _ hexdumpLine_a hopen, hexdump_lines, hexdumpShows_iff, hsize] at hwhole
  cases hwhole

end OnkenOS
