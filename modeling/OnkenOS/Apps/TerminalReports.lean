import OnkenOS.Apps.TerminalWords
import OnkenOS.Kernel.FsStore

/-!
# What the terminal reports about files

`touch` looks at what `vfs_create` returns; `write` and `cp` look at nothing and always report
success. The reports are true when the file can be stored (`Storable`): for `touch` also when no
slot is free, since then it reports the failure (`terminal_reports_iff`).
-/

namespace OnkenOS

open Machine

/-! ## Reports -/

/-- The lines of `s'` behind those of `s` hold the line `msg`. -/
def Says (s s' : Shell) (msg : List UInt8) : Prop :=
  ∃ color, Effect.print msg color ∈ s'.effects.drop s.effects.length

/-- The line, of at most 127 characters, is `write`, a name and a text. -/
def WriteLine (cmd name text : List UInt8) : Prop :=
  cmd.length ≤ 127 ∧ 0 ∉ cmd ∧ IsWord name ∧ text ≠ [] ∧ ∃ pad pad', Spaces pad ∧ Spaces pad' ∧
    cmd = pad ++ (str "write" ++ afterWord (some (pad' ++ (name ++ afterWord (some text)))))

/-- The line is `cp` and two names, with anything behind them. -/
def CpLine (cmd src dst : List UInt8) : Prop :=
  cmd.length ≤ 127 ∧ 0 ∉ cmd ∧ IsWord src ∧ IsWord dst ∧
    ∃ pad pad' pad'' rest, Spaces pad ∧ Spaces pad' ∧ Spaces pad'' ∧
      cmd = pad ++ (str "cp" ++ afterWord (some (pad' ++ (src ++ afterWord (some (pad'' ++
        (dst ++ afterWord rest)))))))

/-- The line is `touch` and a name, with anything behind it. -/
def TouchLine (cmd name : List UInt8) : Prop := FileLine (str "touch") cmd name

/-- If `write` reports success, the file holds the text without its leading spaces. -/
def WriteTrue (env : Env) (s : Shell) (cmd name text : List UInt8) : Prop :=
  Says s (execCommand env cmd s) (str "Written.") →
    Stored s.files (execCommand env cmd s).files name (skipSpaces text)

/-- If `cp` reports success, the second file holds what the first one held. -/
def CpTrue (env : Env) (s : Shell) (cmd src dst : List UInt8) : Prop :=
  Says s (execCommand env cmd s) (str "Copied.") →
    ∃ i, vfsOpen s.files src = some i ∧
      Stored s.files (execCommand env cmd s).files dst (s.files i).bytes

/-- If `touch` reports success, the file is there. -/
def TouchTrue (env : Env) (s : Shell) (cmd name : List UInt8) : Prop :=
  Says s (execCommand env cmd s) (str "Created " ++ name) →
    ∃ d, Stored s.files (execCommand env cmd s).files name d

section
variable {cmd name text src dst : List UInt8} (env : Env) (s : Shell)

/-- What is said is reported, and nothing else: the line is the only one that was added. -/
theorem says_say_iff {s' : Shell} {msg : String} {line : List UInt8} {color : BitVec 32}
    (he : s'.effects = s.effects) : Says s (s'.say msg color) line ↔ line = str msg := by
  have hdrop : (s'.say msg color).effects.drop s.effects.length =
      [Effect.print (str msg) color] := by
    change (s'.effects ++ [Effect.print (str msg) color]).drop s.effects.length = _
    rw [he, List.drop_left]
  unfold Says
  simp only [hdrop, List.mem_singleton, Effect.print.injEq]
  exact ⟨fun ⟨_, hline, _⟩ => hline, fun hline => ⟨color, hline, rfl⟩⟩

/-- What follows from a report that was made just now holds as it stands. -/
theorem says_say_imp {s' : Shell} {msg : String} {color : BitVec 32} {p : Prop}
    (he : s'.effects = s.effects) : (Says s (s'.say msg color) (str msg) → p) ↔ p :=
  forall_prop_of_true ((says_say_iff s he).2 rfl)

/-- The text behind its spaces is a string. -/
theorem zero_not_mem_skipSpaces (h : 0 ∉ text) : 0 ∉ skipSpaces text :=
  fun hmem => h ((List.dropWhile_sublist _).subset hmem)

/-- A text of at most 127 bytes is stored whole. -/
theorem take_strBytes (h : 0 ∉ text) (hlen : text.length ≤ 127) :
    (strBytes text).take (min (strlen text) maxFileSize) = text := by
  have hstrlen : strlen text = text.length := congrArg List.length (cstr_of_zero_not_mem h)
  have hmin : min (strlen text) maxFileSize = text.length := by
    change min (strlen text) 16384 = _
    omega
  rw [hmin]
  exact take_getD text _ rfl

/-- `write` is a word. -/
theorem isWord_write : IsWord (str "write") := ⟨by decide, by decide⟩

/-- `cp` is a word. -/
theorem isWord_cp : IsWord (str "cp") := ⟨by decide, by decide⟩

/-- `touch` is a word. -/
theorem isWord_touch : IsWord (str "touch") := ⟨by decide, by decide⟩

/-- `write` with both arguments creates the file, writes the text without the spaces before it, and
reports success whatever came of it. -/
theorem cmdWrite_eq {rest rest' rest'' : Option (List UInt8)}
    (hname : strtok (str " ") rest = (some name, rest'))
    (htext : strtok (str "") rest' = (some text, rest'')) :
    cmdWrite rest s = ({ s with files := (vfsWrite (vfsCreate s.files name).1 name
      (strBytes (skipSpaces text)) (strlen (skipSpaces text))).1 } : Shell).say
        "Written." 0x00FF00 := by
  unfold cmdWrite
  rw [hname]
  dsimp only
  rw [htext]
  dsimp only
  rw [create_if_missing]

/-- `cp` with both arguments and a source stores its contents and reports success, whether or not
there was room. -/
theorem cmdCp_eq {rest rest' rest'' : Option (List UInt8)} {i : Fin maxFiles}
    (hsrc : strtok (str " ") rest = (some src, rest'))
    (hdst : strtok (str " ") rest' = (some dst, rest'')) (hopen : vfsOpen s.files src = some i) :
    cmdCp rest s = ({ s with files := (vfsWrite (vfsCreate s.files dst).1 dst
      (s.files i).data (s.files i).size).1 } : Shell).say "Copied." 0x00FF00 := by
  have hused : (s.files i).used = true := (fileView_eq_some.1 (findFile_eq_some hopen)).1
  unfold cmdCp
  rw [hsrc]
  dsimp only
  rw [hdst]
  dsimp only
  rw [hopen]
  dsimp only
  rw [vfsCreate_used hused]

/-- `cp` without a source says so, and changes nothing. -/
theorem cmdCp_none {rest rest' rest'' : Option (List UInt8)}
    (hsrc : strtok (str " ") rest = (some src, rest'))
    (hdst : strtok (str " ") rest' = (some dst, rest'')) (hopen : vfsOpen s.files src = none) :
    cmdCp rest s = s.say "Source not found." 0xD0021B := by
  unfold cmdCp
  rw [hsrc]
  dsimp only
  rw [hdst]
  dsimp only
  rw [hopen]

/-- `write` reports the truth exactly under a storable name: it does not look at what `vfs_create`
and `vfs_write` return. -/
theorem writeTrue_iff (hline : WriteLine cmd name text) :
    WriteTrue env s cmd name text ↔ Storable s.files name := by
  obtain ⟨hlen, hzero, hname, htext, pad, pad', hpad, hpad', rfl⟩ := hline
  have hword := strtok_word (some (pad' ++ (name ++ afterWord (some text)))) hpad
    isWord_write hzero
  have hzero' := zero_not_mem_rest hzero
  have hword' := strtok_word (some text) hpad' hname hzero'
  have hzerot := zero_not_mem_rest hzero'
  have hrest := strtok_rest hzerot htext
  have hexec := execCommand_builtin env ((strlen_le_length _).trans hlen) hword
    (b := .write) rfl s
  have hshort : (skipSpaces text).length ≤ 127 := by
    refine le_trans (List.dropWhile_sublist _).length_le (le_trans ?_ hlen)
    simp only [afterWord, List.length_append, List.length_cons]
    omega
  have hstore := stored_create_write_iff s.files name (strBytes (skipSpaces text))
    (strlen (skipSpaces text))
  rw [take_strBytes (zero_not_mem_skipSpaces hzerot) hshort] at hstore
  unfold WriteTrue
  rw [hexec.trans (cmdWrite_eq s hword' hrest), says_say_imp, say_files]
  · dsimp only
    exact hstore
  · rfl

/-- `cp` reports the truth exactly without a source or under a storable name. -/
theorem cpTrue_iff (hline : CpLine cmd src dst) :
    CpTrue env s cmd src dst ↔ vfsOpen s.files src = none ∨ Storable s.files dst := by
  obtain ⟨hlen, hzero, hsrc, hdst, pad, pad', pad'', rest, hpad, hpad', hpad'', rfl⟩ := hline
  have hword := strtok_word (some (pad' ++ (src ++ afterWord (some (pad'' ++
    (dst ++ afterWord rest)))))) hpad isWord_cp hzero
  have hzero' := zero_not_mem_rest hzero
  have hword' := strtok_word (some (pad'' ++ (dst ++ afterWord rest))) hpad' hsrc hzero'
  have hword'' := strtok_word rest hpad'' hdst (zero_not_mem_rest hzero')
  have hexec := execCommand_builtin env ((strlen_le_length _).trans hlen) hword (b := .cp) rfl s
  unfold CpTrue
  cases hopen : vfsOpen s.files src with
  | none =>
      rw [hexec.trans (cmdCp_none s hword' hword'' hopen)]
      refine iff_of_true (fun hsays => ?_) (.inl rfl)
      exact absurd ((says_say_iff s rfl).1 hsays) (by decide)
  | some i =>
      have hstore := stored_create_write_iff s.files dst (s.files i).data (s.files i).size
      rw [Nat.min_eq_left (s.files i).size_le] at hstore
      rw [hexec.trans (cmdCp_eq s hword' hword'' hopen), says_say_imp, say_files]
      · dsimp only
        refine Iff.trans ⟨fun ⟨k, hk, hst⟩ => ?_, fun hst => ⟨i, rfl, hst⟩⟩
          (hstore.trans (or_iff_right (by simp)).symm)
        cases hk
        exact hst
      · rfl

/-- The line of a `touch` that worked, with the whole name. -/
theorem xsprintf_created (hzero : 0 ∉ name) :
    xsprintf (str "Created %s") [.str name] = some (str "Created " ++ name) := by
  have hconv : convStr ⟨0, false, false⟩ name = name :=
    (convStr_plain name).trans (cstr_of_zero_not_mem hzero)
  calc xsprintf (str "Created %s") [.str name]
      = some (str "Created " ++ (convStr ⟨0, false, false⟩ name ++ [])) := rfl
    _ = some (str "Created " ++ name) := by rw [hconv, List.append_nil]

/-- `touch` with a name looks at what `vfs_create` returns, and reports success or failure. -/
theorem cmdTouch_eq {rest rest' : Option (List UInt8)} (hzero : 0 ∉ name)
    (hname : strtok (str " ") rest = (some name, rest')) :
    cmdTouch rest s =
      if (vfsCreate s.files name).2 = 0 then
        { s with
          files := (vfsCreate s.files name).1
          term := termHistoryAdd s.term (str "Created " ++ name) 0x00FF00
          effects := s.effects ++ [.sprintf 64 (some (str "Created " ++ name))] ++
            [.print (str "Created " ++ name) 0x00FF00] }
      else ({ s with files := (vfsCreate s.files name).1 } : Shell).say
        "Failed to create file." 0xD0021B := by
  unfold cmdTouch withArg
  rw [hname]
  dsimp only [Shell.printf, Shell.sprintf, Shell.print]
  rw [xsprintf_created hzero]
  rfl

/-- `touch` reports the truth exactly for a name that fits, and for any name when no slot is
free. -/
theorem touchTrue_iff (hline : TouchLine cmd name) :
    TouchTrue env s cmd name ↔ strlen name ≤ 31 ∨ ∀ i, (s.files i).used = true := by
  have hline : FileLine (str "touch") cmd name := hline
  obtain ⟨rest, rest', hexec, hname⟩ := hline.execCommand env isWord_touch (b := .touch) rfl s
  unfold TouchTrue
  rw [hexec.trans (cmdTouch_eq s hline.zero_not_mem hname)]
  by_cases hr : (vfsCreate s.files name).2 = 0
  · rw [if_pos hr]
    refine Iff.trans (forall_prop_of_true ⟨0x00FF00, ?_⟩) ⟨?_, fun hok => ?_⟩
    · rintro ⟨d, i, hopen, -, -⟩
      exact .inl (strlen_le_of_findFile hopen)
    · have hshort := strlen_le_of_created hr hok
      obtain ⟨i, hopen, hother⟩ := vfsCreate_storable (storable_of_created hshort hr)
      exact ⟨_, i, hopen, rfl, hother⟩
    · rw [List.append_assoc, List.drop_left]
      exact List.mem_append_right _ (List.mem_singleton_self _)
  · rw [if_neg hr]
    refine iff_of_true (fun hsays => ?_) (.inr (full_of_not_created hr))
    have hfirst : some (67 : UInt8) = some 70 :=
      congrArg List.head? ((says_say_iff s rfl).1 hsays)
    cases hfirst

end

/-- For every state of the RAM disk and every command line, the terminal's report of a `write`, a
`cp` and a `touch` is true exactly if the name fits in a slot and has one or finds a free one;
that of a `cp` also if there is nothing to copy, and that of a `touch` also if no slot is free. -/
theorem terminal_reports_iff (env : Env) (s : Shell) (cmd src name text : List UInt8) :
    (WriteLine cmd name text → (WriteTrue env s cmd name text ↔ Storable s.files name)) ∧
      (CpLine cmd src name → (CpTrue env s cmd src name ↔
        vfsOpen s.files src = none ∨ Storable s.files name)) ∧
      (TouchLine cmd name → (TouchTrue env s cmd name ↔
        strlen name ≤ 31 ∨ ∀ i, (s.files i).used = true)) :=
  ⟨writeTrue_iff env s, cpTrue_iff env s, touchTrue_iff env s⟩

/-- The terminal when the system has started. -/
def firstShell : Shell := ⟨Terminal.static, vfsInit [], false, []⟩

/-- The lines `write a hi`, `cp notes.txt a` and `touch a` on the first files, of which `notes.txt`
is one. -/
theorem terminal_reports_iff_first_files :
    WriteTrue Env.zero firstShell (str "write a hi") (str "a") (str "hi") ∧
      (∃ i, vfsOpen firstShell.files (str "notes.txt") = some i) ∧
      CpTrue Env.zero firstShell (str "cp notes.txt a") (str "notes.txt") (str "a") ∧
      TouchTrue Env.zero firstShell (str "touch a") (str "a") := by
  unfold firstShell
  have hnames := holdsNames_vfsInit []
  generalize vfsInit [] = files at hnames ⊢
  have hfree : Storable files (str "a") := by
    refine ⟨by decide, 7, .inr (Bool.eq_false_iff.2 fun hused => ?_)⟩
    exact absurd ((hnames.used_iff 7).1 hused) (by decide)
  have ha : IsWord (str "a") := ⟨by decide, by decide⟩
  have hnotes : IsWord (str "notes.txt") := ⟨by decide, by decide⟩
  obtain ⟨hwrite, -, -⟩ := terminal_reports_iff Env.zero ⟨Terminal.static, files, false, []⟩
    (str "write a hi") (str "notes.txt") (str "a") (str "hi")
  obtain ⟨-, hcp, -⟩ := terminal_reports_iff Env.zero ⟨Terminal.static, files, false, []⟩
    (str "cp notes.txt a") (str "notes.txt") (str "a") (str "hi")
  obtain ⟨-, -, htouch⟩ := terminal_reports_iff Env.zero ⟨Terminal.static, files, false, []⟩
    (str "touch a") (str "notes.txt") (str "a") (str "hi")
  refine ⟨?_, hnames.exists_open (by decide) (by decide), ?_, ?_⟩
  · exact (hwrite ⟨by decide, by decide, ha, by decide, [], [], spaces_nil, spaces_nil, rfl⟩).2
      hfree
  · exact (hcp ⟨by decide, by decide, hnotes, ha, [], [], [], none, spaces_nil, spaces_nil,
      spaces_nil, rfl⟩).2 (.inr hfree)
  · exact (htouch ⟨by decide, by decide, ha, [], [], none, spaces_nil, spaces_nil, rfl⟩).2
      (.inl (by decide))

/-- A text written to a new file with a name of 32 bytes is lost. -/
theorem written_text_lost :
    ¬ ∀ (logoPng : List UInt8) (calls : List VfsChange) (env : Env) (s : Shell)
      (cmd src name text : List UInt8), s.files = run vfsChange (vfsInit logoPng) calls →
        (WriteLine cmd name text → WriteTrue env s cmd name text) ∧
          (CpLine cmd src name → CpTrue env s cmd src name) ∧
          (TouchLine cmd name → TouchTrue env s cmd name) := by
  intro h
  have hline : WriteLine (str "write " ++ List.replicate 32 97 ++ str " x")
      (List.replicate 32 97) (str "x") :=
    ⟨by decide, by decide, ⟨by decide, by decide⟩, by decide, [], [], spaces_nil, spaces_nil, rfl⟩
  have hinit := h [] [] Env.zero
  generalize vfsInit [] = files at hinit
  have htrue := (hinit ⟨Terminal.static, files, false, []⟩ _ [] _ _ rfl).1 hline
  have hshort := ((writeTrue_iff _ _ hline).1 htrue).1
  exact absurd hshort (by decide)

end OnkenOS
