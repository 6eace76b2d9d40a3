import OnkenOS.Apps.CommandRuns

/-!
# Rules for the commands

What each command needs and what it leaves, as triples over the map, and what follows for the
terminal: a text that was written is what `cat` shows, whatever other commands about other files
stand between (`cat_shows_written`).
-/

namespace OnkenOS

open Tokens Interp

/-- The file is there and holds `d`. -/
def FileMap.Has (m : FileMap) (name d : List UInt8) : Prop := m.files.lookup name = some d

section
variable {name d text line : List UInt8} {cs : List Command}

/-! ## The map -/

/-- Where a name has room, `write` stores the text under it and says so. -/
theorem triple_write (htext : text.length ≤ maxFileSize) :
    Triple FileMap.exec (fun m => m.Room name) [.write name text] fun m out =>
      m.Has name text ∧ out = [str "Written."] := by
  refine Triple.command fun m hroom => ⟨?_, rfl⟩
  change (m.put name text).files.lookup name = some text
  rw [FileMap.lookup_put m htext, if_pos ⟨rfl, hroom⟩]

/-- Other commands leave the file as it is. -/
theorem triple_others (h : ∀ c ∈ cs, c.changes ≠ some name) :
    Triple FileMap.exec (fun m => m.Has name d) cs fun m _ => m.Has name d :=
  Triple.keep fun c hc m hm => (m.lookup_exec (h c hc)).trans hm

/-- `cat` prints the lines of what a name holds, of its first 2048 bytes at most. -/
theorem triple_cat :
    Triple FileMap.exec (fun m => m.Has name d) [.cat name] fun _ out =>
      out = (catLines [] (d.take 2048)).map cstr := by
  refine Triple.command fun m hm => ?_
  change m.about name _ = _
  unfold FileMap.about
  rw [hm]

/-- Written, left alone and shown: the rules of the three parts, composed. -/
theorem triple_written (htext : text.length ≤ maxFileSize)
    (h : ∀ c ∈ cs, c.changes ≠ some name) :
    Triple FileMap.exec (fun m => m.Room name) ([.write name text] ++ (cs ++ [.cat name]))
      fun _ out => ∃ before, out = before ++ (catLines [] (text.take 2048)).map cstr := by
  have hcat : ∀ out, Triple FileMap.exec (fun m => m.Has name text) [.cat name] fun _ out' =>
      ∃ before, out ++ out' = before ++ (catLines [] (text.take 2048)).map cstr := by
    refine fun out => triple_cat.conseq (fun _ hm => hm) ?_
    rintro _ _ rfl
    exact ⟨out, rfl⟩
  have hrest : Triple FileMap.exec (fun m => m.Has name text) (cs ++ [.cat name]) fun _ out =>
      ∃ before, out = before ++ (catLines [] (text.take 2048)).map cstr :=
    (triple_others h).seq hcat
  refine (triple_write htext).seq fun out => hrest.conseq (fun m hm => hm.1) ?_
  rintro _ _ ⟨before, rfl⟩
  exact ⟨out ++ before, (List.append_assoc out before _).symm⟩

/-! ## Lines -/

/-- A text without a leading space is all there is to read. -/
theorem body_of_head (h : ∀ c ∈ text.head?, c ≠ 32) : body blank text = text := by
  cases text with
  | nil => rfl
  | cons c text =>
      have hc := h c rfl
      rw [body, List.dropWhile_cons_of_neg (by simp [blank, hc])]

/-- A word has no blanks in it, so it is read whole. -/
theorem IsWord.not_blank (hname : IsWord name) : ∀ c ∈ name, blank c = false := by
  intro c hc
  have hne : c ≠ 32 := fun he => hname.2 (he ▸ hc)
  simp [blank, hne]

/-- No blanks are skipped before a word. -/
theorem IsWord.body_append (hname : IsWord name) (rest : List UInt8) :
    body blank (name ++ rest) = name ++ rest := by
  refine body_of_head fun c hc => ?_
  obtain ⟨hne, hspace⟩ := hname
  cases name with
  | nil => exact absurd rfl hne
  | cons b name =>
      obtain rfl : b = c := by simpa using hc
      exact fun he => hspace (he ▸ List.mem_cons_self)

/-- The first word of a word is the word. -/
theorem IsWord.firstWord (hname : IsWord name) : firstWord name = name := by
  have hbody := hname.body_append []
  rw [List.append_nil] at hbody
  rw [OnkenOS.firstWord, hbody]
  exact List.takeWhile_eq_self_iff.2 fun c hc => by simp [hname.not_blank c hc]

/-- The first word of a line and the rest of it. -/
theorem IsWord.split (hname : IsWord name) (rest : List UInt8) :
    OnkenOS.firstWord (name ++ 32 :: rest) = name ∧ behind blank (name ++ 32 :: rest) = rest := by
  have hword : ∀ c ∈ name, (!blank c) = true := fun c hc => by simp [hname.not_blank c hc]
  rw [OnkenOS.firstWord, behind, hname.body_append]
  refine ⟨?_, ?_⟩
  · rw [word, List.takeWhile_append_of_pos hword, List.takeWhile_cons_of_neg (by simp [blank]),
      List.append_nil]
  · rw [List.dropWhile_append_of_pos hword, List.dropWhile_cons_of_neg (by simp [blank]),
      List.tail_cons]

/-- A name for a file: a word that fits in a slot. -/
structure IsName (name : List UInt8) : Prop where
  word : IsWord name
  zero_not_mem : 0 ∉ name
  short : name.length ≤ 31

/-- The command's own name is one. -/
theorem isWord_cat : IsWord (str "cat") := ⟨by decide, by decide⟩

/-- The line that shows a file is read as that command: its name is the second word. -/
theorem readsAs_cat (hname : IsName name) : ReadsAs (str "cat " ++ name) (.cat name) := by
  have hline : str "cat " ++ name = str "cat" ++ 32 :: name := rfl
  obtain ⟨hfirst, hbehind⟩ := isWord_cat.split name
  refine ⟨?_, List.not_mem_append (by decide) hname.zero_not_mem, ?_, fun _ h => by cases h⟩
  · have hlen := hname.short
    have hcat : (str "cat ").length = 4 := rfl
    rw [List.length_append]
    omega
  · rw [commandOf, hline, hfirst, hbehind]
    change some (withName "Usage: cat <filename>" .cat name) = _
    rw [withName, hname.word.firstWord, if_neg hname.word.1]

/-- The line that writes a text is read as that command: its name is the second word, and the text
is all that is behind it. -/
theorem readsAs_write (hname : IsName name) (htext : text ≠ []) (hhead : ∀ c ∈ text.head?, c ≠ 32)
    (hzero : 0 ∉ text) (hlen : name.length + text.length ≤ 120) :
    ReadsAs (str "write " ++ name ++ 32 :: text) (.write name text) := by
  have hline : str "write " ++ name ++ 32 :: text = str "write" ++ 32 :: (name ++ 32 :: text) := rfl
  obtain ⟨hfirst, hbehind⟩ :=
    isWord_write.split (name ++ 32 :: text)
  obtain ⟨hfirst', hbehind'⟩ := hname.word.split text
  refine ⟨?_, ?_, ?_, ?_⟩
  · have hwrite : (str "write ").length = 6 := rfl
    simp only [List.length_append, List.length_cons]
    omega
  · refine List.not_mem_append (List.not_mem_append (by decide) hname.zero_not_mem) ?_
    rw [List.mem_cons, not_or]
    exact ⟨by decide, hzero⟩
  · rw [commandOf, hline, hfirst, hbehind]
    change some (withTwo "Usage: write <file> <text...>"
      (fun name text => .write name (body blank text)) id (name ++ 32 :: text)) = _
    rw [withTwo, hfirst', hbehind', id, if_neg (by simp [hname.word.1, htext]), body_of_head hhead]
  · rintro _ ⟨⟩
    exact hname.short

/-- A line of at most 120 bytes is one line for `cat`. -/
theorem catLines_line (lineBuf : List UInt8) (hnewline : 10 ∉ text)
    (hlen : lineBuf.length + text.length ≤ 120) (hne : lineBuf ++ text ≠ []) :
    catLines lineBuf text = [lineBuf ++ text] := by
  induction text generalizing lineBuf with
  | nil =>
      rw [List.append_nil] at hne ⊢
      rw [catLines, if_pos (List.length_pos_iff.2 hne)]
  | cons b text ih =>
      rw [List.mem_cons, not_or] at hnewline
      rw [List.length_cons] at hlen
      have hroom : ¬(b = 10 ∨ lineBuf.length ≥ 120) := by
        rintro (rfl | hfull)
        · exact hnewline.1 rfl
        · omega
      have hnext := ih (lineBuf ++ [b]) hnewline.2
        (by rw [List.length_append, List.length_singleton]; omega) (by simp)
      rw [catLines_cons, if_neg hroom, hnext, List.append_assoc, List.singleton_append]

end

/-- What is written under a name that has a file or finds a free slot is what `cat` prints last,
after any lines that are commands about other files, whatever else is on the disk. The text is one
line that does not begin with a space, and fits in the command line with the name. -/
theorem cat_shows_written (env : Env) {name text : List UInt8} (hname : IsName name)
    (htext : text ≠ []) (hhead : ∀ c ∈ text.head?, c ≠ 32) (hzero : 0 ∉ text) (hnewline : 10 ∉ text)
    (hlen : name.length + text.length ≤ 120) {lines : List (List UInt8)} {cs : List Command}
    (hlines : List.Forall₂ ReadsAs lines cs) (hothers : ∀ c ∈ cs, c.changes ≠ some name)
    {s : Shell} {m : FileMap} (h : Holds s.files m) (hroom : m.Room name) :
    (Interp.run (shellExec env) s
      ([str "write " ++ name ++ 32 :: text] ++ (lines ++ [str "cat " ++ name]))).2.getLast? =
        some text := by
  have hreads : List.Forall₂ ReadsAs
      ([str "write " ++ name ++ 32 :: text] ++ (lines ++ [str "cat " ++ name]))
      ([.write name text] ++ (cs ++ [.cat name])) :=
    .cons (readsAs_write hname htext hhead hzero hlen)
      (List.rel_append hlines (.cons (readsAs_cat hname) .nil))
  have hfits : text.length ≤ 16384 := by omega
  have hshown : catLines [] (text.take 2048) = [text] := by
    rw [List.take_of_length_le (by omega)]
    exact catLines_line [] hnewline (by rw [List.length_nil]; omega) htext
  obtain ⟨t, -, before, hout⟩ := (triple_written hfits hothers).refines
    (R := fun (s : Shell) m => Holds s.files m) (shellExec_refines env) hreads s ⟨m, h, hroom⟩
  rw [hout, hshown, List.map_singleton, cstr_of_zero_not_mem hzero, List.getLast?_concat]

/-- Between the two lines another file is written and the file is counted. -/
theorem cat_shows_written_counted :
    (Interp.run (shellExec Env.zero) ⟨Terminal.static, Files.zero, false, []⟩
      ([str "write a" ++ 32 :: str "some text"] ++ ([str "write b other", str "wc a"] ++
        [str "cat a"]))).2.getLast? = some (str "some text") := by
  have hname : IsName (str "a") := ⟨⟨by decide, by decide⟩, by decide, by decide⟩
  have hother : (Command.write (str "b") (str "other")).Short := by
    rintro _ ⟨⟩
    decide
  have hcount : (Command.wc (str "a")).Short := by
    rintro _ ⟨⟩
  have hhead : ∀ c ∈ (str "some text").head?, c ≠ 32 := by
    rintro c ⟨⟩
    decide
  refine cat_shows_written Env.zero hname (by decide) hhead (by decide) (by decide)
    (by decide) (.cons ⟨by decide, by decide, by decide, hother⟩
      (.cons ⟨by decide, by decide, by decide, hcount⟩ .nil)) ?_ holds_zero (.inr (by decide))
  decide

end OnkenOS
