import OnkenOS.Apps.TerminalWords

/-!
# What `cat` prints

`cat` collects a line in `line_buf` and prints it at a newline, and also when 120 bytes are
collected. The byte at which it then is has no place in the old line and is not put in the new
one. So nothing is lost exactly when no line of the file is longer than 120 bytes
(`cat_prints_iff`).
-/

namespace OnkenOS

/-- The strings that go to `print_to_shell`. -/
def printedLines (effects : List Effect) : List (List UInt8) :=
  effects.filterMap fun
    | .print msg _ => some (cstr msg)
    | _ => none

/-- The line is `cat` and a name, with anything behind it. -/
def CatLine (cmd name : List UInt8) : Prop := FileLine (str "cat") cmd name

/-- The lines that the command prints are, one after the other, the contents of the file without
its newlines. -/
def CatWhole (env : Env) (s : Shell) (cmd : List UInt8) (f : VfsFile) : Prop :=
  (printedLines ((execCommand env cmd s).effects.drop s.effects.length)).flatten =
    f.bytes.filter (· ≠ 10)

/-! ## The loop -/

/-- What the loop prints for the bytes `bs` with `lineBuf` collected, the last line included. -/
def catLines (lineBuf : List UInt8) : List UInt8 → List (List UInt8)
  | [] => if lineBuf.length > 0 then [lineBuf] else []
  | b :: bs =>
      if b = 10 ∨ lineBuf.length ≥ 120 then lineBuf :: catLines [] bs
      else catLines (lineBuf ++ [b]) bs

/-- One round: a newline or a full buffer prints the line and drops the byte; another byte is
collected. -/
theorem catLines_cons (lineBuf : List UInt8) (b : UInt8) (bs : List UInt8) :
    catLines lineBuf (b :: bs) =
      if b = 10 ∨ lineBuf.length ≥ 120 then lineBuf :: catLines [] bs
      else catLines (lineBuf ++ [b]) bs := rfl

/-- The loop keeps the lines before it, and prints its own behind them. -/
theorem catLoop_lines (f : VfsFile) (is : List Nat) (s : Shell) (lineBuf : List UInt8) :
    ∃ lines : List (List UInt8),
      (catLoop f (s, lineBuf) is).1.effects =
        s.effects ++ lines.map (fun l => Effect.print l 0xFFFFFF) ∧
      lines ++ catLines (catLoop f (s, lineBuf) is).2 [] = catLines lineBuf (is.map f.data) := by
  induction is generalizing s lineBuf with
  | nil => exact ⟨[], by simp [catLoop]⟩
  | cons i is ih =>
      rw [catLoop, List.map_cons, catLines_cons]
      split
      · obtain ⟨lines, heffects, hlines⟩ := ih (s.print lineBuf 0xFFFFFF) []
        refine ⟨lineBuf :: lines, ?_, ?_⟩
        · rw [heffects]
          simp [Shell.print]
        · rw [List.cons_append, hlines]
      · exact ih s (lineBuf ++ [f.data i])

/-- Nothing is printed that is not in the file, and nothing twice. -/
theorem catLines_sublist (bs lineBuf : List UInt8) :
    (catLines lineBuf bs).flatten.Sublist (lineBuf ++ bs.filter (· ≠ 10)) := by
  induction bs generalizing lineBuf with
  | nil =>
      rw [catLines]
      split <;> simp
  | cons b bs ih =>
      rw [catLines]
      split
      · rw [List.flatten_cons]
        refine List.Sublist.append_left ((ih []).trans ?_) lineBuf
        rw [List.nil_append]
        exact (List.sublist_cons_self b bs).filter _
      · next hb =>
          have hne : b ≠ 10 := fun he => hb (.inl he)
          refine (ih (lineBuf ++ [b])).trans ?_
          simp [hne]

/-- What is printed without a NUL is read as it is. -/
theorem printedLines_map {lines : List (List UInt8)} (color : BitVec 32)
    (hzero : ∀ l ∈ lines, 0 ∉ l) :
    printedLines (lines.map fun l => Effect.print l color) = lines := by
  have hcstr : printedLines (lines.map fun l => Effect.print l color) = lines.map cstr := by
    simp [printedLines]
  rw [hcstr]
  exact (List.map_congr_left fun l hl => cstr_of_zero_not_mem (hzero l hl)).trans
    (List.map_id lines)

/-- The lines of `cat`, for a file of at most 2048 bytes: what the loop makes of them, the last line
included. -/
theorem catFile_lines {f : VfsFile} (s : Shell) (hsize : f.size ≤ 2048) (hzero : 0 ∉ f.bytes) :
    printedLines ((catFile f s).effects.drop s.effects.length) = catLines [] f.bytes := by
  obtain ⟨lines, heffects, hlines⟩ := catLoop_lines f (List.range f.size) s []
  change _ = catLines [] f.bytes at hlines
  have hprinted : (catFile f s).effects = s.effects ++
      (lines ++ catLines (catLoop f (s, []) (List.range f.size)).2 []).map
        (fun l => Effect.print l 0xFFFFFF) := by
    unfold catFile
    rw [Nat.min_eq_left hsize, List.map_append, catLines]
    dsimp only
    split
    · rw [Shell.print, heffects, List.append_assoc]
      rfl
    · rw [heffects, List.map_nil, List.append_nil]
  rw [hprinted, List.drop_left, hlines]
  refine printedLines_map _ fun l hl hmem => hzero ?_
  have hflat := (catLines_sublist f.bytes []).subset (List.mem_flatten_of_mem hl hmem)
  exact List.mem_of_mem_filter hflat

/-- Splitting at newlines, by the first byte: a newline ends an empty line, and another byte goes to
the front of the first one. -/
theorem splitOn_newline_cons (b : UInt8) (bs : List UInt8) :
    (b :: bs).splitOn 10 =
      if b = 10 then [] :: bs.splitOn 10 else (bs.splitOn 10).modifyHead (b :: ·) := by
  simp [List.splitOn, List.splitOnP_cons_eq_if_modifyHead]

/-- Nothing put before the first line leaves the lines. -/
theorem modifyHead_nil_append (ls : List (List UInt8)) : ls.modifyHead ([] ++ ·) = ls :=
  congrFun List.modifyHead_id ls

/-- All is printed exactly when no line, the collected bytes included, is longer than 120. -/
theorem catLines_flatten_iff (bs lineBuf : List UInt8) (hlen : lineBuf.length ≤ 120) :
    (catLines lineBuf bs).flatten = lineBuf ++ bs.filter (· ≠ 10) ↔
      ∀ l ∈ (bs.splitOn 10).modifyHead (lineBuf ++ ·), l.length ≤ 120 := by
  induction bs generalizing lineBuf with
  | nil =>
      refine iff_of_true ?_ (by simpa using hlen)
      rw [catLines]
      split
      · simp
      · next hnil => simpa using hnil
  | cons b bs ih =>
      rw [catLines_cons, splitOn_newline_cons]
      by_cases hb : b = 10
      · have hrest := ih [] (Nat.zero_le 120)
        rw [modifyHead_nil_append, List.nil_append] at hrest
        rw [if_pos (.inl hb), if_pos hb, List.flatten_cons, List.filter_cons_of_neg (by simp [hb]),
          List.append_cancel_left_eq, hrest]
        simp [hlen]
      · rw [List.filter_cons_of_pos (by simp [hb]), if_neg hb, List.modifyHead_modifyHead]
        by_cases hfull : lineBuf.length ≥ 120
        · rw [if_pos (.inr hfull)]
          -- the byte is lost, and the line it belongs to is too long
          refine iff_of_false (fun he => ?_) fun hshort => ?_
          · rw [List.flatten_cons, List.append_cancel_left_eq] at he
            have hsub := (catLines_sublist bs []).length_le
            rw [he, List.nil_append, List.length_cons] at hsub
            omega
          · cases hsplit : bs.splitOn 10 with
            | nil => exact List.splitOnP_ne_nil _ _ hsplit
            | cons l ls =>
                have hl := hshort (lineBuf ++ b :: l) (by simp [hsplit])
                simp only [List.length_append, List.length_cons] at hl
                omega
        · have hnext := ih (lineBuf ++ [b])
            (by simp only [List.length_append, List.length_singleton]; omega)
          rw [if_neg (fun h => h.elim hb hfull)]
          simpa [Function.comp_def] using hnext

/-- All of the bytes are printed exactly when no line of them is longer than 120. -/
theorem catLines_whole_iff (bs : List UInt8) :
    (catLines [] bs).flatten = bs.filter (· ≠ 10) ↔ ∀ l ∈ bs.splitOn 10, l.length ≤ 120 := by
  have hiff := catLines_flatten_iff bs [] (Nat.zero_le 120)
  rw [modifyHead_nil_append, List.nil_append] at hiff
  exact hiff

/-- `cat` of a file that is there runs its loop over the contents of that file. -/
theorem execCommand_cat (env : Env) (s : Shell) {cmd name : List UInt8} {i : Fin maxFiles}
    (hline : CatLine cmd name) (hopen : vfsOpen s.files name = some i) :
    execCommand env cmd s = catFile (s.files i) s := by
  have hline : FileLine (str "cat") cmd name := hline
  obtain ⟨rest, rest', hexec, hname⟩ :=
    hline.execCommand env ⟨by decide, by decide⟩ (b := .cat) rfl s
  rw [hexec]
  change cmdCat _ s = _
  unfold cmdCat withArg
  rw [hname]
  dsimp only [withFile]
  rw [hopen]

/-- For every state of the RAM disk and every `cat` of a file of at most 2048 bytes without a NUL,
the whole file is printed exactly if none of its lines is longer than 120 bytes. -/
theorem cat_prints_iff (env : Env) (s : Shell) {cmd name : List UInt8} {i : Fin maxFiles}
    (hline : CatLine cmd name) (hopen : vfsOpen s.files name = some i)
    (hsize : (s.files i).size ≤ 2048) (hzero : 0 ∉ (s.files i).bytes) :
    CatWhole env s cmd (s.files i) ↔ ∀ l ∈ (s.files i).bytes.splitOn 10, l.length ≤ 120 := by
  unfold CatWhole
  rw [execCommand_cat env s hline hopen, catFile_lines s hsize hzero]
  exact catLines_whole_iff _

/-! ## A RAM disk with one file -/

/-- The table with one file. -/
def oneFile (name text : List UInt8) : Files := fun i =>
  if i.val = 0 then (VfsFile.zero.createAs name).store (strBytes text) text.length
  else VfsFile.zero

section
variable {name text : List UInt8}

/-- The only file has the name and the text, as neither is cut. -/
theorem oneFile_entry (hname : strlen name ≤ 31) (htext : text.length ≤ maxFileSize) :
    (oneFile name text 0).entry = (cstr name, text) := by
  change ((VfsFile.zero.createAs name).store (strBytes text) text.length).entry = _
  rw [VfsFile.store_entry, Nat.min_eq_left htext]
  refine Prod.ext ?_ (take_getD text _ rfl)
  rw [show cstr (VfsFile.zero.createAs name).name = (cstr name).take 31 from
    congrArg Prod.fst (VfsFile.zero.createAs_entry name)]
  exact List.take_of_length_le hname

/-- It is found under its name, in slot 0. -/
theorem vfsOpen_oneFile (hname : strlen name ≤ 31) (htext : text.length ≤ maxFileSize) :
    vfsOpen (oneFile name text) name = some 0 := by
  change findFile _ _ = some (0 : Fin 64)
  refine Fin.find?_eq_some_iff.2 ⟨?_, fun j hj => absurd hj (Fin.not_lt_zero j)⟩
  rw [Bool.and_eq_true, beq_iff_eq, strcmp_eq_zero_iff]
  exact ⟨rfl, congrArg Prod.fst (oneFile_entry hname htext)⟩

/-- Its contents are the text. -/
theorem bytes_oneFile (hname : strlen name ≤ 31) (htext : text.length ≤ maxFileSize) :
    (oneFile name text 0).bytes = text := congrArg Prod.snd (oneFile_entry hname htext)

/-- Its size is the length of the text. -/
theorem size_oneFile (hname : strlen name ≤ 31) (htext : text.length ≤ maxFileSize) :
    (oneFile name text 0).size = text.length := by
  rw [← VfsFile.length_bytes, bytes_oneFile hname htext]

end

/-- The line `cat a`. -/
theorem catLine_a : CatLine (str "cat a") (str "a") :=
  ⟨by decide, by decide, ⟨by decide, by decide⟩, [], [], none, spaces_nil, spaces_nil, rfl⟩

/-- `cat a` of a file with two short lines, the second of which ends without a newline. -/
theorem cat_prints_iff_two_lines :
    CatWhole Env.zero ⟨Terminal.static, oneFile (str "a") (str "one\ntwo"), false, []⟩
      (str "cat a") (oneFile (str "a") (str "one\ntwo") 0) := by
  have hname : strlen (str "a") ≤ 31 := by decide
  have htext : (str "one\ntwo").length ≤ 16384 := by decide
  have hbytes := bytes_oneFile hname htext
  have hsize : (oneFile (str "a") (str "one\ntwo") 0).size = 7 := size_oneFile hname htext
  refine (cat_prints_iff Env.zero ⟨Terminal.static, oneFile (str "a") (str "one\ntwo"), false, []⟩
    catLine_a (vfsOpen_oneFile hname htext) ?_ ?_).2 ?_
  · change (oneFile (str "a") (str "one\ntwo") 0).size ≤ 2048
    omega
  · change 0 ∉ (oneFile (str "a") (str "one\ntwo") 0).bytes
    rw [hbytes]
    decide
  · change ∀ l ∈ (oneFile (str "a") (str "one\ntwo") 0).bytes.splitOn 10, l.length ≤ 120
    rw [hbytes]
    decide

/-- The last byte of a line of 121 is not printed: the buffer is full when it arrives, so the line
is printed and the byte dropped. -/
theorem cat_loses_byte :
    ¬ ∀ (env : Env) (s : Shell) (cmd name : List UInt8) (i : Fin maxFiles), CatLine cmd name →
      vfsOpen s.files name = some i → (s.files i).size ≤ 2048 → 0 ∉ (s.files i).bytes →
        CatWhole env s cmd (s.files i) := by
  intro h
  have hname : strlen (str "a") ≤ 31 := by decide
  generalize htext : List.replicate 121 (97 : UInt8) = text
  have hlen : text.length = 121 := by rw [← htext, List.length_replicate]
  have hletters : ∀ c ∈ text, c = 97 := fun c hc =>
    List.eq_of_mem_replicate (htext ▸ hc)
  have hmax : text.length ≤ 16384 := by omega
  have hbytes := bytes_oneFile hname hmax
  have hsize : (oneFile (str "a") text 0).size ≤ 2048 := by
    rw [size_oneFile hname hmax]
    omega
  have hzero : 0 ∉ (oneFile (str "a") text 0).bytes := by
    rw [hbytes]
    exact fun hmem => absurd (hletters 0 hmem) (by decide)
  have hone : text.splitOn 10 = [text] := by
    refine List.splitOnP_eq_singleton fun c hc => ?_
    rw [hletters c hc]
    decide
  have hopen := vfsOpen_oneFile hname hmax
  generalize hs : (⟨Terminal.static, oneFile (str "a") text, false, []⟩ : Shell) = s
  have hfiles : s.files = oneFile (str "a") text := by rw [← hs]
  rw [← hfiles] at hopen hbytes hsize hzero
  have hwhole := h Env.zero s (str "cat a") (str "a") 0 catLine_a hopen hsize hzero
  unfold CatWhole at hwhole
  rw [execCommand_cat _ _ catLine_a hopen, catFile_lines _ hsize hzero, catLines_whole_iff, hbytes,
    hone] at hwhole
  have hshort := hwhole text (.head _)
  omega

end OnkenOS
