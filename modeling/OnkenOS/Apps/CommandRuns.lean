import OnkenOS.Apps.Commands
import OnkenOS.Apps.TerminalActs
import OnkenOS.Apps.TerminalReports
import OnkenOS.Kernel.Sprintf

/-!
# The terminal runs the language of commands

`exec_command` reads with `strtok` what `commandOf` reads, and does to the table of files and prints
what `FileMap.exec` says, for names that fit in a slot (`terminal_runs_commands`).
-/

namespace OnkenOS

open Tokens Decimal Interp

/-- What the command stores has a name that fits in a slot. -/
def Command.Short (c : Command) : Prop := ∀ name ∈ c.stores, name.length ≤ 31

/-- What an effect leaves in the terminal's own variables. -/
def showEffect (t : Terminal) : Effect → Terminal
  | .print msg color => termHistoryAdd t msg color
  | _ => t

/-- Effects that print the lines `out` and do nothing else. -/
structure Prints (s s' : Shell) (es : List Effect) (out : List (List UInt8)) : Prop where
  effects : s'.effects = s.effects ++ es
  acts : es.filter Effect.acts = []
  lines : printedLines es = out
  term : s'.term = es.foldl showEffect s.term

/-- From `s` to `s'` the terminal came to the files of a map and printed some lines. -/
structure Runs (s s' : Shell) (r : FileMap × List (List UInt8)) : Prop where
  holds : Holds s'.files r.1
  closed : s'.closed = s.closed
  prints : ∃ es, Prints s s' es r.2

/-- `exec_command` as an interpreter of lines, with the lines it prints as its output. -/
def shellExec (env : Env) (s : Shell) (line : List UInt8) : Shell × List (List UInt8) :=
  (execCommand env line s, printedLines ((execCommand env line s).effects.drop s.effects.length))

/-- The line fits in `cmd_buf` and is a command that stores under short names only. -/
structure ReadsAs (line : List UInt8) (c : Command) : Prop where
  short : line.length ≤ 127
  zero_not_mem : 0 ∉ line
  command : commandOf line = some c
  stores : c.Short

section
variable {s s' : Shell} {m : FileMap} {out : List (List UInt8)} {rest : Option (List UInt8)}
  {args name line : List UInt8} {c : Command}

/-! ## Words -/

/-- The delimiters of `strtok(…, " ")` are the blanks of the command language, so the source's
tokens are its words. -/
theorem isDelim_space : isDelim (str " ") = blank := by
  funext c
  change decide (c ∈ [(32 : UInt8)]) = (c == 32)
  rw [Bool.eq_iff_iff]
  simp

/-- There is no first word exactly where nothing is left behind the blanks at the front. -/
theorem firstWord_eq_nil : firstWord line = [] ↔ body blank line = [] := by
  refine ⟨fun h => ?_, fun h => ?_⟩
  · by_contra hne
    exact word_ne_nil hne h
  · rw [firstWord, h]
    rfl

/-- The first word of a line without a NUL has none either, so reading it back as a string of C
changes nothing. -/
theorem zero_not_mem_firstWord (h : 0 ∉ line) : 0 ∉ firstWord line :=
  fun hmem => h ((List.dropWhile_sublist _).subset ((List.takeWhile_sublist _).subset hmem))

/-- What `strtok` leaves behind the first word is part of the line, which bounds its length and its
bytes. -/
theorem behind_sublist (line : List UInt8) : (behind blank line).Sublist line :=
  (List.tail_sublist _).trans ((List.dropWhile_sublist _).trans (List.dropWhile_sublist _))

/-- What is behind the first word of a line without a NUL has none either. -/
theorem zero_not_mem_behind (h : 0 ∉ line) : 0 ∉ behind blank line :=
  fun hmem => h ((behind_sublist line).subset hmem)

/-- A `strtok` that has nothing left answers as on the empty string, so a command may take its
arguments to be a string in either case. -/
theorem strtok_getD (delim : List UInt8) (rest : Option (List UInt8)) :
    strtok delim rest = strtok delim (some (rest.getD [])) := by
  cases rest with
  | none => rfl
  | some s => rfl

/-- `strtok` finds the first word, and leaves what is behind it. -/
theorem strtok_line (hrest : rest.getD [] = args) (hzero : 0 ∉ args) :
    ∃ rest', rest'.getD [] = behind blank args ∧ strtok (str " ") rest =
      (if firstWord args = [] then none else some (firstWord args), rest') := by
  rw [strtok_getD, hrest, strtok_eq, isDelim_space, cstr_of_zero_not_mem hzero]
  by_cases hbody : body blank args = []
  · refine ⟨none, (behind_eq_nil hbody).symm, ?_⟩
    rw [if_pos hbody, if_pos (firstWord_eq_nil.2 hbody)]
  · rw [if_neg hbody, if_neg (mt firstWord_eq_nil.1 hbody)]
    refine ⟨_, ?_, rfl⟩
    split
    · next hnil => rw [behind, hnil]; rfl
    · rfl

/-! ## What is printed -/

/-- Effects that print, one after the other, print the lines of both. -/
theorem Prints.append {es es' : List Effect} {out' : List (List UInt8)} {s'' : Shell}
    (h : Prints s s' es out) (h' : Prints s' s'' es' out') :
    Prints s s'' (es ++ es') (out ++ out') where
  effects := by rw [h'.effects, h.effects, List.append_assoc]
  acts := by rw [List.filter_append, h.acts, h'.acts, List.append_nil]
  lines := by
    rw [printedLines, List.filterMap_append, ← printedLines, ← printedLines, h.lines, h'.lines]
  term := by rw [List.foldl_append, ← h.term, h'.term]

/-- A command that does nothing prints nothing and leaves the files as they are. -/
theorem Runs.refl (h : Holds s.files m) : Runs s s (m, []) :=
  ⟨h, rfl, [], (List.append_nil _).symm, rfl, rfl, rfl⟩

/-- A command may go on to store or remove a file: only the map of the files changes, not the lines.
-/
theorem Runs.files (h : Runs s s' (m, out)) {files : Files} {m' : FileMap}
    (hfiles : Holds files m') : Runs s { s' with files := files } (m', out) := by
  obtain ⟨es, hes⟩ := h.prints
  exact ⟨hfiles, h.closed, es, hes.effects, hes.acts, hes.lines, hes.term⟩

/-- After `term_print` of a message its characters up to the NUL are the next line. -/
theorem Runs.print (h : Runs s s' (m, out)) (msg : List UInt8) (color : BitVec 32) :
    Runs s (s'.print msg color) (m, out ++ [cstr msg]) := by
  obtain ⟨es, hes⟩ := h.prints
  exact ⟨h.holds, h.closed, es ++ [.print msg color], hes.append ⟨rfl, rfl, rfl, rfl⟩⟩

/-- A message of the source that has no NUL in it is printed as it stands. -/
theorem Runs.say (h : Runs s s' (m, out)) (msg : String) (color : BitVec 32)
    (hmsg : 0 ∉ str msg) : Runs s (s'.say msg color) (m, out ++ [str msg]) := by
  have hprint := h.print (str msg) color
  rwa [cstr_of_zero_not_mem hmsg] at hprint

/-- What `xsprintf` makes of a format is the next line, if there is no NUL in it. -/
theorem Runs.printf (h : Runs s s' (m, out)) (size : Nat) (color : BitVec 32) {format : String}
    {fargs : List Arg} {text : List UInt8} (htext : xsprintf (str format) fargs = some text)
    (hzero : 0 ∉ text) : Runs s (s'.printf size color format fargs) (m, out ++ [text]) := by
  have hsprintf : Runs s (s'.sprintf size format fargs).1 (m, out) := by
    obtain ⟨es, hes⟩ := h.prints
    have hone : Prints s' (s'.sprintf size format fargs).1
        [.sprintf size (xsprintf (str format) fargs)] [] := ⟨rfl, rfl, rfl, rfl⟩
    have hboth := hes.append hone
    rw [List.append_nil] at hboth
    exact ⟨h.holds, h.closed, _, hboth⟩
  have hprint := hsprintf.print text color
  rw [cstr_of_zero_not_mem hzero] at hprint
  have htext' : (s'.sprintf size format fargs).2 = text := by
    rw [Shell.sprintf, htext]
    rfl
  change Runs s ((s'.sprintf size format fargs).1.print (s'.sprintf size format fargs).2 color) _
  rwa [htext']

/-! ## Numbers -/

/-- `%d` writes a count below `2 ^ 31` as the decimal number it is: no sign, no padding. -/
theorem convInt_natCast {n : Nat} (hn : n < 2 ^ 31) :
    convInt ⟨0, false, false⟩ (BitVec.ofNat 32 n) = decimal n := by
  have htoNat : (BitVec.ofNat 32 n).toNat = n := by
    rw [BitVec.toNat_ofNat]
    omega
  have htoInt : (BitVec.ofNat 32 n).toInt = n := by
    rw [BitVec.toInt_eq_toNat_of_lt (by omega), htoNat]
  have hne : BitVec.ofNat 32 n ≠ BitVec.intMin 32 := by
    intro he
    have hmin := congrArg BitVec.toInt he
    rw [htoInt, BitVec.toInt_intMin] at hmin
    omega
  have hsign : sign (BitVec.ofNat 32 n) = [] := by
    rw [sign, if_neg (by omega)]
  rw [convInt_eq _ hne, hsign, htoInt]
  simp

/-- The digits of a number are printable, so none of them ends the string. -/
theorem zero_not_mem_decimal (n : Nat) : 0 ∉ decimal n := by
  intro hmem
  exact absurd (mem_decimal hmem).1 (by decide)

/-- A byte that is not white begins a word, which goes on up to the next white byte: one word, and
those behind it. -/
theorem length_tokens_cons {p : UInt8 → Bool} {b : UInt8} {bs : List UInt8} (hb : p b = false) :
    (tokens p (b :: bs)).length = (tokens p (bs.dropWhile fun a => !p a)).length + 1 := by
  have hbody : body p (b :: bs) = b :: bs := by
    rw [body, List.dropWhile_cons_of_neg (by simp [hb])]
  have hbehind : behind p (b :: bs) = (bs.dropWhile fun a => !p a).tail := by
    rw [behind, hbody, List.dropWhile_cons_of_pos (by simp [hb])]
  rw [tokens_eq_cons (by rw [hbody]; simp), List.length_cons, hbehind]
  cases hrest : bs.dropWhile fun a => !p a with
  | nil => rfl
  | cons a t =>
      have ha : p a = true := by simpa using head_dropWhile hrest
      rw [List.tail_cons, tokens_cons_delim ha]

/-- There are no more words than characters, so the number of words is an `int` where the length is.
-/
theorem length_tokens_le (p : UInt8 → Bool) (bs : List UInt8) :
    (tokens p bs).length ≤ bs.length := by
  induction hn : bs.length using Nat.strongRecOn generalizing bs with
  | _ n ih =>
      cases bs with
      | nil => exact Nat.zero_le n
      | cons b bs =>
          rw [List.length_cons] at hn
          cases hb : p b with
          | true =>
              rw [tokens_cons_delim hb]
              have hrest := ih bs.length (by omega) bs rfl
              omega
          | false =>
              have hless := (List.dropWhile_sublist (l := bs) fun a => !p a).length_le
              have hrest := ih _ (by omega) (bs.dropWhile fun a => !p a) rfl
              rw [length_tokens_cons hb]
              omega

/-- `wc` separates words at blanks, line breaks, tabs and carriage returns. -/
theorem white_iff (b : UInt8) : white b = true ↔ b = 32 ∨ b = 10 ∨ b = 9 ∨ b = 13 := by
  simp [white, or_assoc]

/-- One byte of the loop of `wc`: a white one ends a word, another one may start one. -/
theorem wcStep_eq (n : WordCount) (b : UInt8) :
    wcStep n b = if white b then ⟨n.words, n.lines + [b].count 10, false⟩
      else ⟨if n.inWord then n.words else n.words + 1, n.lines, true⟩ := by
  obtain ⟨words, lines, inWord⟩ := n
  by_cases hb : white b = true
  · have hor := (white_iff b).1 hb
    rw [if_pos hb]
    by_cases h10 : b = 10
    · simp [wcStep, h10]
    · simp only [h10, false_or] at hor
      simp [wcStep, h10, hor]
  · obtain ⟨h32, h10, h9, h13⟩ : b ≠ 32 ∧ b ≠ 10 ∧ b ≠ 9 ∧ b ≠ 13 := by
      simpa only [white_iff, not_or] using hb
    rw [if_neg hb]
    cases inWord <;> simp [wcStep, h10, h32, h9, h13]

/-- The loop of `wc` counts the newlines and the words: a word is counted where its first character
follows a blank or the start. -/
theorem wc_counts (bs : List UInt8) (n : WordCount) :
    (bs.foldl wcStep n).lines = n.lines + bs.count 10 ∧
      (bs.foldl wcStep n).words = n.words +
        (tokens white (if n.inWord then bs.dropWhile fun a => !white a else bs)).length := by
  induction bs generalizing n with
  | nil => simp
  | cons b bs ih =>
      obtain ⟨hlines, hwords⟩ := ih (wcStep n b)
      rw [List.foldl_cons, hlines, hwords, wcStep_eq]
      cases hb : white b with
      | true =>
          refine ⟨?_, ?_⟩
          · rw [if_pos rfl, List.count_cons, List.count_cons]
            simp only [List.count_nil]
            omega
          · simp [hb, tokens_cons_delim hb]
      | false =>
          have hne : b ≠ 10 := by
            rintro rfl
            simp [white] at hb
          refine ⟨by simp [List.count_cons_of_ne hne], ?_⟩
          cases hin : n.inWord with
          | true => simp [hb]
          | false =>
              simp only [if_true, if_false, Bool.false_eq_true, length_tokens_cons hb]
              omega

/-! ## The commands -/

/-- The search finds a file of the map, under a name of any length. -/
theorem Holds.open_cases {files : Files} (h : Holds files m) (hzero : 0 ∉ name) :
    (∃ i, vfsOpen files name = some i ∧ cstr (files i).name = name ∧
        m.files.lookup name = some (files i).bytes) ∨
      (vfsOpen files name = none ∧ m.files.lookup name = none) := by
  cases hf : vfsOpen files name with
  | none =>
      refine .inr ⟨rfl, Finmap.lookup_eq_none.2 fun hmem => ?_⟩
      obtain ⟨i, d, hi⟩ := h.mem_iff.1 hmem
      rw [← cstr_of_zero_not_mem hzero] at hi
      exact findFile_eq_none hf hi
  | some i =>
      have hi := findFile_eq_some hf
      rw [cstr_of_zero_not_mem hzero] at hi
      exact .inl ⟨i, rfl, congrArg Prod.fst (fileView_eq_some.1 hi).2, h.lookup_of_view hi⟩

/-- Only the bytes that are kept matter: `write` cuts the data to the size of a file. -/
theorem FileMap.write_congr {data data' : Bytes} {len len' : Nat}
    (h : data.take (min len maxFileSize) = data'.take (min len' maxFileSize)) :
    m.write name data len = m.write name data' len' := by
  unfold FileMap.write
  simp only [h]

/-- `vfs_create` and then `vfs_write`, as the commands do it, stores `d` under the name: a file that
is there is overwritten, and a full table stores nothing, as in the map. -/
theorem Holds.put {files : Files} (h : Holds files m) (hzero : 0 ∉ name) (hshort : name.length ≤ 31)
    (data : Bytes) (len : Nat) {d : List UInt8} (hd : d.length ≤ maxFileSize)
    (hdata : data.take (min len maxFileSize) = d) :
    Holds (vfsWrite (vfsCreate files name).1 name data len).1 (m.put name d) := by
  have hcreate := (h.create ⟨name, hzero, hshort⟩).1
  have hwrite := (hcreate.write ⟨name, hzero, hshort⟩ data len).1
  have hbytes : data.take (min len maxFileSize) = (strBytes d).take (min d.length maxFileSize) := by
    rw [hdata, Nat.min_eq_left hd]
    exact (take_getD d _ rfl).symm
  rwa [FileMap.write_congr hbytes] at hwrite

/-- `vfs_remove` takes the name out of the map and answers whether it was there. The length of the
name does not matter: a name that is too long is not stored. -/
theorem Holds.remove_name {files : Files} (h : Holds files m) (hzero : 0 ∉ name) :
    Holds (vfsRemove files name).1 (m.remove name).1 ∧
      (vfsRemove files name).2 = (m.remove name).2 := by
  by_cases hshort : name.length ≤ 31
  · exact h.remove ⟨name, hzero, hshort⟩
  · rcases h.open_cases hzero with ⟨i, hopen, -, -⟩ | ⟨hopen, hlookup⟩
    · have hlen := strlen_le_of_findFile hopen
      rw [strlen, cstr_of_zero_not_mem hzero] at hlen
      exact absurd hlen hshort
    · have hf : OnkenOS.findFile files name = none := hopen
      unfold vfsRemove FileMap.remove
      rw [hf, if_neg (Finmap.lookup_eq_none.1 hlookup)]
      exact ⟨h, rfl⟩

/-- A command that looks for its file, or says that it is missing. -/
theorem withFile_runs (h : Holds s.files m) (hzero : 0 ∉ name)
    {body : VfsFile → Shell → Shell} {lines : List UInt8 → List (List UInt8)}
    (hbody : ∀ f : VfsFile, cstr f.name = name → Runs s (body f s) (m, lines f.bytes)) :
    Runs s (withFile name s body) (m, m.about name lines) := by
  unfold withFile FileMap.about
  rcases h.open_cases hzero with ⟨i, hopen, hname, hlookup⟩ | ⟨hopen, hlookup⟩
  · rw [hopen, hlookup]
    exact hbody _ hname
  · rw [hopen, hlookup]
    exact (Runs.refl h).say "File not found." _ (by decide)

/-- A command with a name, or the line that says how to use it. -/
theorem withArg_runs (h : Holds s.files m) (hrest : rest.getD [] = args) (hzero : 0 ∉ args)
    {usage : String} (husage : 0 ∉ str usage) {mk : List UInt8 → Command}
    {body : List UInt8 → Shell → Shell} (hshort : (withName usage mk args).Short)
    (hbody : ∀ name, 0 ∉ name → (mk name).Short → Runs s (body name s) (m.exec (mk name))) :
    Runs s (withArg usage rest s body) (m.exec (withName usage mk args)) := by
  obtain ⟨rest', -, hstrtok⟩ := strtok_line hrest hzero
  unfold withArg withName at *
  rw [hstrtok]
  by_cases hword : firstWord args = []
  · rw [if_pos hword, if_pos hword]
    exact (Runs.refl h).say usage _ husage
  · rw [if_neg hword] at hshort ⊢
    rw [if_neg hword]
    exact hbody _ (zero_not_mem_firstWord hzero) hshort

/-- `touch` makes an empty file of its first argument and says so, or prints its usage. -/
theorem touch_runs (h : Holds s.files m) (hrest : rest.getD [] = args) (hzero : 0 ∉ args)
    (hshort : (withName "Usage: touch <filename>" .touch args).Short) :
    Runs s (cmdTouch rest s) (m.exec (withName "Usage: touch <filename>" .touch args)) := by
  refine withArg_runs h hrest hzero (by decide) hshort fun name hname hlen => ?_
  obtain ⟨hholds, hreport⟩ := h.create ⟨name, hname, hlen name rfl⟩
  have hfiles := (Runs.refl h).files hholds
  dsimp only at hreport ⊢
  change Runs s _ ((m.create name).1,
    [if (m.create name).2 = 0 then str "Created " ++ name else str "Failed to create file."])
  rw [← hreport]
  split
  · exact hfiles.printf 64 0x00FF00 (xsprintf_created hname)
      (List.not_mem_append (by decide) hname)
  · exact hfiles.say "Failed to create file." _ (by decide)

/-- The message of `rm`, with the whole name: `%s` copies a string that has no NUL. -/
theorem xsprintf_removed (hzero : 0 ∉ name) :
    xsprintf (str "Removed %s") [.str name] = some (str "Removed " ++ name) := by
  have hconv : convStr ⟨0, false, false⟩ name = name :=
    (convStr_plain name).trans (cstr_of_zero_not_mem hzero)
  calc xsprintf (str "Removed %s") [.str name]
      = some (str "Removed " ++ (convStr ⟨0, false, false⟩ name ++ [])) := rfl
    _ = some (str "Removed " ++ name) := by rw [hconv, List.append_nil]

/-- `rm` removes its first argument and says so, or that there is no such file, or prints its usage.
-/
theorem rm_runs (h : Holds s.files m) (hrest : rest.getD [] = args) (hzero : 0 ∉ args)
    (hshort : (withName "Usage: rm <filename>" .rm args).Short) :
    Runs s (cmdRm rest s) (m.exec (withName "Usage: rm <filename>" .rm args)) := by
  refine withArg_runs h hrest hzero (by decide) hshort fun name hname _ => ?_
  obtain ⟨hholds, hreport⟩ := h.remove_name hname
  have hfiles := (Runs.refl h).files hholds
  change Runs s _ ((m.remove name).1,
    [if (m.remove name).2 = 0 then str "Removed " ++ name else str "File not found."])
  rw [← hreport]
  dsimp only
  split
  · exact hfiles.printf 64 0x00FF00 (xsprintf_removed hname)
      (List.not_mem_append (by decide) hname)
  · exact hfiles.say "File not found." _ (by decide)

/-- The loop of `cat` prints lines, and with the line it has not ended yet these are the lines of
what it has read. By induction on the bytes that are left. -/
theorem catLoop_runs (f : VfsFile) (is : List Nat) (lineBuf : List UInt8)
    (h : Runs s s' (m, out)) :
    ∃ lines, Runs s (catLoop f (s', lineBuf) is).1 (m, out ++ lines.map cstr) ∧
      lines ++ catLines (catLoop f (s', lineBuf) is).2 [] = catLines lineBuf (is.map f.data) := by
  induction is generalizing s' lineBuf out with
  | nil => exact ⟨[], by simpa [catLoop] using h, rfl⟩
  | cons i is ih =>
      rw [catLoop, List.map_cons, catLines_cons]
      split
      · obtain ⟨lines, hruns, hlines⟩ := ih [] (h.print lineBuf 0xFFFFFF)
        refine ⟨lineBuf :: lines, by simpa using hruns, ?_⟩
        rw [List.cons_append, hlines]
      · exact ih _ h

/-- `cat` prints the lines of the file under its first argument, or that there is no such file, or
its usage. -/
theorem cat_runs (h : Holds s.files m) (hrest : rest.getD [] = args) (hzero : 0 ∉ args)
    (hshort : (withName "Usage: cat <filename>" .cat args).Short) :
    Runs s (cmdCat rest s) (m.exec (withName "Usage: cat <filename>" .cat args)) := by
  refine withArg_runs h hrest hzero (by decide) hshort fun name hname _ => ?_
  refine withFile_runs h hname fun f _ => ?_
  have hbytes : (List.range (min f.size 2048)).map f.data = f.bytes.take 2048 := by
    rw [VfsFile.bytes, Bytes.take, ← List.map_take, List.take_range, Nat.min_comm]
  obtain ⟨lines, hruns, hlines⟩ :=
    catLoop_runs f (List.range (min f.size 2048)) [] (Runs.refl h)
  rw [hbytes] at hlines
  rw [← hlines, List.map_append, catLines]
  unfold catFile
  dsimp only
  split
  · exact hruns.print _ 0xFFFFFF
  · simpa using hruns

/-- The message of `wc`: the three counts in decimal, as they are `int`s. -/
theorem xsprintf_wc {a b c : Nat} (ha : a < 2 ^ 31) (hb : b < 2 ^ 31) (hc : c < 2 ^ 31) :
    xsprintf (str "  %d lines, %d words, %d bytes") [intArg a, intArg b, intArg c] =
      some (str "  " ++ decimal a ++ str " lines, " ++ decimal b ++ str " words, " ++ decimal c ++
        str " bytes") := by
  calc xsprintf (str "  %d lines, %d words, %d bytes") [intArg a, intArg b, intArg c]
      = some (str "  " ++ (convInt ⟨0, false, false⟩ (BitVec.ofNat 32 a) ++ (str " lines, " ++
          (convInt ⟨0, false, false⟩ (BitVec.ofNat 32 b) ++ (str " words, " ++
            (convInt ⟨0, false, false⟩ (BitVec.ofNat 32 c) ++ str " bytes")))))) := rfl
    _ = _ := by
      rw [convInt_natCast ha, convInt_natCast hb, convInt_natCast hc]
      simp only [List.append_assoc]

/-- `wc` prints the three counts of the file. They are `int`s, because a file has at most 4096
bytes. -/
theorem wc_runs (h : Holds s.files m) (hrest : rest.getD [] = args) (hzero : 0 ∉ args)
    (hshort : (withName "Usage: wc <file>" .wc args).Short) :
    Runs s (cmdWc rest s) (m.exec (withName "Usage: wc <file>" .wc args)) := by
  refine withArg_runs h hrest hzero (by decide) hshort fun name hname _ => ?_
  refine withFile_runs h hname fun f _ => ?_
  obtain ⟨hlines, hwords⟩ := wc_counts f.bytes ⟨0, 0, false⟩
  have hsize : f.bytes.length ≤ 16384 := f.length_bytes.trans_le f.size_le
  have hcount : f.bytes.count 10 ≤ f.bytes.length := List.count_le_length
  have htokens := length_tokens_le white f.bytes
  have htext := xsprintf_wc (a := f.bytes.count 10) (b := (tokens white f.bytes).length)
    (c := f.bytes.length) (by omega) (by omega) (by omega)
  refine (Runs.refl h).printf 64 0xFFFFFF ?_ ?_
  · simpa [hlines, hwords] using htext
  · have h0 : 0 ∉ str "  " := by decide
    have h1 : 0 ∉ str " lines, " := by decide
    have h2 : 0 ∉ str " words, " := by decide
    have h3 : 0 ∉ str " bytes" := by decide
    simp [h0, h1, h2, h3, zero_not_mem_decimal]

/-- The message of `stat` on the size, in decimal. -/
theorem xsprintf_size {a : Nat} (ha : a < 2 ^ 31) :
    xsprintf (str "Size: %d bytes") [intArg a] =
      some (str "Size: " ++ decimal a ++ str " bytes") := by
  calc xsprintf (str "Size: %d bytes") [intArg a]
      = some (str "Size: " ++
          (convInt ⟨0, false, false⟩ (BitVec.ofNat 32 a) ++ str " bytes")) := rfl
    _ = _ := by rw [convInt_natCast ha, List.append_assoc]

/-- `stat` prints the name of the file and its size, or that there is no such file, or its usage. -/
theorem stat_runs (h : Holds s.files m) (hrest : rest.getD [] = args) (hzero : 0 ∉ args)
    (hshort : (withName "Usage: stat <file>" .stat args).Short) :
    Runs s (cmdStat rest s) (m.exec (withName "Usage: stat <file>" .stat args)) := by
  refine withArg_runs h hrest hzero (by decide) hshort fun name hname _ => ?_
  refine withFile_runs h hname fun f hf => ?_
  have hsize : f.size ≤ 16384 := f.size_le
  have hconv : convStr ⟨0, false, false⟩ f.name = name := (convStr_plain f.name).trans hf
  have hfile : xsprintf (str "File: %s") [.str f.name] = some (str "File: " ++ name) := by
    calc xsprintf (str "File: %s") [.str f.name]
        = some (str "File: " ++ (convStr ⟨0, false, false⟩ f.name ++ [])) := rfl
      _ = some (str "File: " ++ name) := by rw [hconv, List.append_nil]
  have hbytes := xsprintf_size (a := f.size) (by omega)
  have hlast : xsprintf (str "Loc:  RAM Disk VFS") [] = some (str "Loc:  RAM Disk VFS") := rfl
  have hdigits := zero_not_mem_decimal f.size
  have h0 : 0 ∉ str "Size: " := by decide
  have h1 : 0 ∉ str " bytes" := by decide
  rw [f.length_bytes]
  exact (((Runs.refl h).printf 128 0xFFFFFF hfile (List.not_mem_append (by decide) hname)).printf
    128 0xFFFFFF hbytes (by simp [h0, h1, hdigits])).printf 128 0xFFFFFF hlast (by decide)

/-- `strtok(NULL, "")` has no delimiters: its token is all that is left, if anything is. -/
theorem strtok_all (hrest : rest.getD [] = args) (hzero : 0 ∉ args) :
    ∃ rest', strtok (str "") rest = (if args = [] then none else some args, rest') := by
  rw [strtok_getD, hrest]
  by_cases hargs : args = []
  · rw [hargs]
    exact ⟨none, rfl⟩
  · rw [if_neg hargs]
    exact ⟨none, strtok_rest hzero hargs⟩

/-- The loops of `echo` and `write` over the blanks before a text leave what the language calls its
body. -/
theorem skipSpaces_eq (text : List UInt8) : skipSpaces text = body blank text := by
  unfold skipSpaces body
  congr

/-- `echo` prints its text without the blanks before it. With nothing behind the command it prints
nothing, not even an empty line. -/
theorem echo_runs (h : Holds s.files m) (hrest : rest.getD [] = args) (hzero : 0 ∉ args) :
    Runs s (cmdEcho rest s)
      (m.exec (if args = [] then .nothing else .echo (body blank args))) := by
  obtain ⟨rest', htext⟩ := strtok_all hrest hzero
  unfold cmdEcho
  rw [htext]
  by_cases hargs : args = []
  · rw [if_pos hargs, if_pos hargs]
    exact Runs.refl h
  · rw [if_neg hargs, if_neg hargs]
    have hprint := (Runs.refl h).print (skipSpaces args) 0xFFFFFF
    rwa [cstr_of_zero_not_mem (zero_not_mem_skipSpaces hzero), skipSpaces_eq] at hprint

/-- `write` stores its text, without the blanks before it, under its first argument. The line fits
in the command line, so the text fits in a file. -/
theorem write_runs (h : Holds s.files m) (hrest : rest.getD [] = args) (hzero : 0 ∉ args)
    (hlen : args.length ≤ 127)
    (hshort : (withTwo "Usage: write <file> <text...>"
      (fun name text => .write name (body blank text)) id args).Short) :
    Runs s (cmdWrite rest s) (m.exec (withTwo "Usage: write <file> <text...>"
      (fun name text => .write name (body blank text)) id args)) := by
  obtain ⟨rest', hrest', hname⟩ := strtok_line hrest hzero
  have hzero' := zero_not_mem_behind hzero
  obtain ⟨rest'', htext⟩ := strtok_all hrest' hzero'
  have husage : Runs s (s.say "Usage: write <file> <text...>" 0xFFAAAA)
      (m, [str "Usage: write <file> <text...>"]) := (Runs.refl h).say _ _ (by decide)
  unfold withTwo at *
  dsimp only [id] at *
  by_cases hword : firstWord args = []
  · rw [if_pos (.inl hword)]
    unfold cmdWrite
    rw [hname, if_pos hword]
    exact husage
  · rw [if_neg hword] at hname
    by_cases hnone : behind blank args = []
    · rw [if_pos (.inr hnone)]
      rw [if_pos hnone] at htext
      unfold cmdWrite
      rw [hname]
      dsimp only
      rw [htext]
      exact husage
    · rw [if_neg hnone] at htext
      rw [if_neg (by simp [hword, hnone])] at hshort ⊢
      rw [cmdWrite_eq s hname htext, skipSpaces_eq]
      have hsub : (body blank (behind blank args)).Sublist args :=
        (List.dropWhile_sublist _).trans (behind_sublist args)
      have htextlen : (body blank (behind blank args)).length ≤ 127 := hsub.length_le.trans hlen
      have hfits : (body blank (behind blank args)).length ≤ 16384 := by omega
      have hput := h.put (zero_not_mem_firstWord hzero) (hshort _ rfl)
        (strBytes (body blank (behind blank args))) (strlen (body blank (behind blank args))) hfits
        (take_strBytes (fun hmem => hzero (hsub.subset hmem)) htextlen)
      exact ((Runs.refl h).files hput).say "Written." _ (by decide)

/-- `cp` stores what is under its first argument under the second one, and says so, or says what is
missing. -/
theorem cp_runs (h : Holds s.files m) (hrest : rest.getD [] = args) (hzero : 0 ∉ args)
    (hshort : (withTwo "Usage: cp <src> <dst>" .cp firstWord args).Short) :
    Runs s (cmdCp rest s) (m.exec (withTwo "Usage: cp <src> <dst>" .cp firstWord args)) := by
  obtain ⟨rest', hrest', hsrc⟩ := strtok_line hrest hzero
  have hzero' := zero_not_mem_behind hzero
  obtain ⟨rest'', -, hdst⟩ := strtok_line hrest' hzero'
  have husage : Runs s (s.say "Usage: cp <src> <dst>" 0xFFAAAA)
      (m, [str "Usage: cp <src> <dst>"]) := (Runs.refl h).say _ _ (by decide)
  unfold withTwo at *
  by_cases hword : firstWord args = []
  · rw [if_pos (.inl hword)]
    unfold cmdCp
    rw [hsrc, if_pos hword]
    exact husage
  · rw [if_neg hword] at hsrc
    by_cases hnone : firstWord (behind blank args) = []
    · rw [if_pos (.inr hnone)]
      rw [if_pos hnone] at hdst
      unfold cmdCp
      rw [hsrc]
      dsimp only
      rw [hdst]
      exact husage
    · rw [if_neg hnone] at hdst
      rw [if_neg (by simp [hword, hnone])] at hshort ⊢
      rcases h.open_cases (zero_not_mem_firstWord hzero) with
        ⟨i, hopen, -, hlookup⟩ | ⟨hopen, hlookup⟩
      · rw [cmdCp_eq s hsrc hdst hopen, FileMap.exec_cp_some hlookup]
        have hsize : (s.files i).bytes.length ≤ maxFileSize :=
          (s.files i).length_bytes.trans_le (s.files i).size_le
        have hput := h.put (zero_not_mem_firstWord hzero') (hshort _ rfl)
          (s.files i).data (s.files i).size hsize
          (by rw [Nat.min_eq_left (s.files i).size_le]; rfl)
        exact ((Runs.refl h).files hput).say "Copied." _ (by decide)
      · rw [cmdCp_none s hsrc hdst hopen, FileMap.exec_cp_none hlookup]
        exact (Runs.refl h).say "Source not found." _ (by decide)

/-! ## Lines -/

/-- A line does to the files and prints what its command means. -/
theorem execCommand_runs (env : Env) (h : Holds s.files m) (hline : ReadsAs line c) :
    Runs s (execCommand env line s) (m.exec c) := by
  obtain ⟨hlen, hzero, hcommand, hshort⟩ := hline
  obtain ⟨mk, hmk, rfl⟩ := Option.map_eq_some_iff.1 hcommand
  obtain ⟨rest, hrest, hstrtok⟩ := strtok_line (show (some line).getD [] = line from rfl) hzero
  have hzero' := zero_not_mem_behind hzero
  have hstrlen : strlen line ≤ 127 := (strlen_le_length line).trans hlen
  -- the line of a command is run by the branch of its name
  have hbuiltin : ∀ {b : Builtin}, builtinOf (firstWord line) = some b → firstWord line ≠ [] →
      execCommand env line s = runBuiltin env b rest s := by
    intro b hb hne
    rw [if_neg hne] at hstrtok
    exact execCommand_builtin env hstrlen hstrtok hb s
  obtain ⟨before, after, htable, -⟩ := List.lookup_eq_some_iff.1 hmk
  have hmem : (firstWord line, mk) ∈ commandTable := by
    rw [htable]
    simp
  simp only [commandTable, List.mem_cons, List.not_mem_nil, or_false, Prod.mk.injEq] at hmem
  rcases hmem with ⟨hw, rfl⟩ | ⟨hw, rfl⟩ | ⟨hw, rfl⟩ | ⟨hw, rfl⟩ | ⟨hw, rfl⟩ | ⟨hw, rfl⟩ |
    ⟨hw, rfl⟩ | ⟨hw, rfl⟩ | ⟨hw, rfl⟩
  · rw [hbuiltin (b := .cat) (by rw [hw]; rfl) (by rw [hw]; decide)]
    exact cat_runs h hrest hzero' hshort
  · rw [hbuiltin (b := .touch) (by rw [hw]; rfl) (by rw [hw]; decide)]
    exact touch_runs h hrest hzero' hshort
  · rw [hbuiltin (b := .rm) (by rw [hw]; rfl) (by rw [hw]; decide)]
    exact rm_runs h hrest hzero' hshort
  · rw [hbuiltin (b := .echo) (by rw [hw]; rfl) (by rw [hw]; decide)]
    exact echo_runs h hrest hzero'
  · rw [hbuiltin (b := .write) (by rw [hw]; rfl) (by rw [hw]; decide)]
    exact write_runs h hrest hzero' ((behind_sublist line).length_le.trans hlen) hshort
  · rw [hbuiltin (b := .wc) (by rw [hw]; rfl) (by rw [hw]; decide)]
    exact wc_runs h hrest hzero' hshort
  · rw [hbuiltin (b := .cp) (by rw [hw]; rfl) (by rw [hw]; decide)]
    exact cp_runs h hrest hzero' hshort
  · rw [hbuiltin (b := .stat) (by rw [hw]; rfl) (by rw [hw]; decide)]
    exact stat_runs h hrest hzero' hshort
  · -- an empty line
    rw [if_pos hw] at hstrtok
    have hnothing : execCommand env line s = s := by
      simp only [execCommand, strtok_temp hstrlen, hstrtok]
    rw [hnothing]
    exact Runs.refl h

/-- On such a line the interpreter of the source and that of the language come to the same files and
print the same lines: the form of the lemma that a run of lines takes. -/
theorem shellExec_refines (env : Env) (s : Shell) (m : FileMap) (line : List UInt8) (c : Command)
    (h : Holds s.files m) (hline : ReadsAs line c) :
    Holds (shellExec env s line).1.files (m.exec c).1 ∧
      (shellExec env s line).2 = (m.exec c).2 := by
  obtain ⟨hholds, -, es, hes⟩ := execCommand_runs env h hline
  refine ⟨hholds, ?_⟩
  rw [shellExec, hes.effects, List.drop_left]
  exact hes.lines

end

/-- Any program of command lines, run line by line by `exec_command` on a table that holds a map,
prints what the commands print on the map and leaves a table that holds the map they leave. -/
theorem terminal_runs_commands (env : Env) {lines : List (List UInt8)} {cs : List Command}
    (hlines : List.Forall₂ ReadsAs lines cs) {s : Shell} {m : FileMap} (h : Holds s.files m) :
    Holds (Interp.run (shellExec env) s lines).1.files (Interp.run FileMap.exec m cs).1 ∧
      (Interp.run (shellExec env) s lines).2 = (Interp.run FileMap.exec m cs).2 :=
  run_refines (R := fun (s : Shell) m => Holds s.files m) (shellExec_refines env) hlines h

/-- A file written, copied, removed and counted: the copy is still there, and its counts are those
of the text. -/
theorem terminal_runs_commands_copy :
    Holds (Interp.run (shellExec Env.zero) ⟨Terminal.static, Files.zero, false, []⟩
        [str "write a two words", str "cp a b", str "rm  a", str "wc b"]).1.files
      (Interp.run FileMap.exec .empty
        [.write (str "a") (str "two words"), .cp (str "a") (str "b"), .rm (str "a"),
          .wc (str "b")]).1 := by
  have hshort : ∀ c : Command, (∀ name ∈ c.stores, name.length ≤ 31) → c.Short := fun _ h => h
  refine (terminal_runs_commands Env.zero (.cons ⟨by decide, by decide, by decide, ?_⟩
    (.cons ⟨by decide, by decide, by decide, ?_⟩ (.cons ⟨by decide, by decide, by decide, ?_⟩
      (.cons ⟨by decide, by decide, by decide, ?_⟩ .nil)))) holds_zero).1
  · exact hshort _ (by decide)
  · exact hshort _ (by decide)
  · exact hshort _ (by decide)
  · exact hshort _ (by decide)

end OnkenOS
