import OnkenOS.Apps.Terminal
import Mathlib.Algebra.Order.BigOperators.Group.List
import Mathlib.Algebra.Order.Group.Nat

/-!
# The terminal's formatted output

Every call of `xsprintf` in the terminal writes into an array of 128 or 64 bytes without a
bound. Here are the commands whose calls have room whatever they are given, because their
numbers, stored names and application names are short. The others are in
`OnkenOS.Apps.TerminalFits`.
-/

namespace OnkenOS

/-! ## Room -/

/-- The characters and the NUL fit in an array of `size` bytes. -/
def Room (size : Nat) (out : Option (List UInt8)) : Prop :=
  ∃ text, out = some text ∧ text.length + 1 ≤ size

/-- A call of `xsprintf` stays in its array. -/
def Effect.Fits : Effect → Prop
  | .sprintf size out => Room size out
  | .print .. | .launch .. | .destroyTask _ => True

/-- Every call of `xsprintf` so far has stayed in its array. -/
def Shell.Fits (s : Shell) : Prop := ∀ e ∈ s.effects, e.Fits

section
variable {s : Shell} {size : Nat} {format : String} {args : List Arg}

/-- A call has room if its literals, widths and arguments leave room for the NUL. -/
theorem room_of_size (hsome : (xsprintf (str format) args).isSome)
    (hsize : formatSize (str format) + (args.map Arg.size).sum < size) :
    Room size (xsprintf (str format) args) := by
  obtain ⟨out, hout⟩ := Option.isSome_iff_exists.1 hsome
  have hlen := length_xsprintf_le hout
  exact ⟨out, hout, by omega⟩

/-- There is room for a result that is known exactly if it is shorter than the array: the NUL is
stored as well. -/
theorem room_iff {out : Option (List UInt8)} {text : List UInt8} (h : out = some text) :
    Room size out ↔ text.length < size := by
  rw [h]
  exact ⟨fun ⟨_, ht, hlen⟩ => Option.some.inj ht ▸ hlen, fun hlen => ⟨text, rfl, hlen⟩⟩

/-- An effect more is one call more to check. -/
theorem fits_append {e : Effect} :
    (∀ e' ∈ s.effects ++ [e], e'.Fits) ↔ s.Fits ∧ e.Fits := by
  rw [List.forall_mem_append, List.forall_mem_singleton]
  rfl

/-- `term_print` is no call of `xsprintf`. -/
@[simp] theorem fits_print (msg : List UInt8) (color : BitVec 32) :
    (s.print msg color).Fits ↔ s.Fits := fits_append.trans (and_iff_left trivial)

@[simp] theorem fits_say (msg : String) (color : BitVec 32) :
    (s.say msg color).Fits ↔ s.Fits := fits_print _ _

/-- One call more fits exactly if its result has room. -/
@[simp] theorem fits_sprintf :
    (s.sprintf size format args).1.Fits ↔ s.Fits ∧ Room size (xsprintf (str format) args) :=
  fits_append

/-- The same of a call whose result is printed. -/
@[simp] theorem fits_printf (color : BitVec 32) :
    (s.printf size color format args).Fits ↔
      s.Fits ∧ Room size (xsprintf (str format) args) := (fits_print _ _).trans fits_sprintf

/-- A call of which all arguments are short changes nothing about the others. -/
theorem fits_printf_short (bound : Nat) {color : BitVec 32} (hargs : ∀ a ∈ args, a.size ≤ bound)
    (hsome : (xsprintf (str format) args).isSome)
    (hsize : decide (formatSize (str format) + args.length * bound < size) = true) :
    (s.printf size color format args).Fits ↔ s.Fits := by
  have hsum : (args.map Arg.size).sum ≤ (args.map Arg.size).length * bound :=
    List.sum_le_card_nsmul _ _ fun n hn => by
      obtain ⟨a, ha, rfl⟩ := List.mem_map.1 hn
      exact hargs a ha
  have hsize := of_decide_eq_true hsize
  rw [List.length_map] at hsum
  exact (fits_printf color).trans (and_iff_left (room_of_size hsome (by omega)))

/-- A command that only changes the files makes no call of `xsprintf`. -/
theorem fits_files (files : Files) : ({ s with files := files } : Shell).Fits ↔ s.Fits := Iff.rfl

/-- A command that only changes the variables of the terminal makes no call of `xsprintf`. -/
theorem fits_term (t : Terminal) : ({ s with term := t } : Shell).Fits ↔ s.Fits := Iff.rfl

/-- A loop each round of which fits does so as a whole, by induction on what it goes through. -/
theorem fits_foldl {α : Type*} {f : Shell → α → Shell} {l : List α}
    (h : ∀ s, ∀ x ∈ l, (f s x).Fits ↔ s.Fits) (s : Shell) : (l.foldl f s).Fits ↔ s.Fits := by
  induction l generalizing s with
  | nil => rfl
  | cons x l ih =>
      rw [List.foldl_cons, ih fun s y hy => h s y (List.mem_cons_of_mem x hy)]
      exact h s x List.mem_cons_self

/-! ## Calls that always have room -/

/-- `%s` takes as many characters as `strlen` counts. -/
theorem size_str (t : List UInt8) : (Arg.str t).size = strlen t := rfl

/-- `%d` takes at most eleven characters, a sign and ten digits, whatever the number. -/
theorem size_intArg_le (n : Nat) : (intArg n).size ≤ 11 := size_int_le _

/-- `%d` of a number below `10 ^ k` takes at most `k` characters: the counts that a message prints
are bounded. -/
theorem size_intArg_small {n k : Nat} (hk : 0 < k) (hn : n < 2 ^ 31) (h : n < 10 ^ k) :
    (intArg n).size ≤ k := by
  have hmod : (BitVec.ofNat 32 n).toNat = n := by
    rw [BitVec.toNat_ofNat, Nat.mod_eq_of_lt (by omega)]
  exact size_int_small hk (by omega) (by omega)

/-- The lines of the banner fit for every machine: the brand string of `cpuid` has at most 48
characters, and all else that is filled in are numbers. -/
theorem fits_showFastfetch (env : Env) (s : Shell) : (showFastfetch env s).Fits ↔ s.Fits := by
  have hbrand : (Arg.str (cpuidGetBrandString env.hw.cpuid)).size ≤ 48 :=
    (strlen_le_length _).trans (length_cpuidGetBrandString_le env.hw.cpuid)
  unfold showFastfetch
  simp only [fits_say]
  rw [fits_printf_short 0 (by simp) rfl rfl]
  rw [fits_printf_short 11 (by simp [size_intArg_le]) rfl rfl]
  rw [fits_printf_short 11 (by simp [size_intArg_le]) rfl rfl]
  rw [fits_printf_short 11 (by simp [size_intArg_le]) rfl rfl]
  rw [fits_printf_short 11 (by simp [size_int_le]) rfl rfl]
  rw [fits_printf_short 11 (by simp [size_int_le]) rfl rfl]
  rw [fits_printf_short 0 (by simp) rfl rfl]
  rw [fits_printf_short 11 (by simp [size_int_le]) rfl rfl]
  rw [fits_printf_short 48 (by simpa using hbrand) rfl rfl]
  rw [fits_printf_short 0 (by simp) rfl rfl]
  rw [fits_printf_short 0 (by simp) rfl rfl]
  simp only [fits_say]

/-- The lines of `pci` fit, however many functions there are: all that is filled in are numbers. -/
theorem fits_cmdPci (env : Env) (s : Shell) : (cmdPci env s).Fits ↔ s.Fits := by
  unfold cmdPci
  rw [fits_foldl, fits_printf_short 11 (by simp [size_intArg_le]) rfl rfl]
  exact fun s d _ => fits_printf_short 11 (by simp [size_intArg_le]) rfl rfl

/-- A line of `help` on an application fits: the registry bounds the name and the text. -/
theorem fits_helpApp (registry : Registry) (s : Shell) (i : Nat) :
    (helpApp registry s i).Fits ↔ s.Fits := by
  unfold helpApp
  split
  · next a ha =>
      have hshort := systemApps_short a (appGetByIndex_mem ha)
      split
      · refine fits_printf_short 21 ?_ rfl rfl
        simp only [List.forall_mem_cons, size_str]
        exact ⟨by omega, hshort.2, by simp⟩
      · rfl
  · rfl

/-- `help` prints texts of the source, and one line for each application. -/
theorem fits_cmdHelp (env : Env) (s : Shell) : (cmdHelp env s).Fits ↔ s.Fits := by
  unfold cmdHelp
  rw [fits_foldl fun s i _ => fits_helpApp env.registry s i, fits_say,
    fits_foldl fun s line _ => fits_say _ _, fits_say]

/-- A line of `ls` fits: a name has at most 31 characters. -/
theorem fits_lsLine (files : Files) (s : Shell) (i : Nat) :
    (lsLine files s i).Fits ↔ s.Fits := by
  unfold lsLine
  split
  · next i _ =>
      refine fits_printf_short 31 ?_ rfl rfl
      have hsize := size_intArg_le (files i).size
      simp only [List.forall_mem_cons, size_str]
      exact ⟨(files i).strlen_name_le, by omega, by simp⟩
  · rfl

/-- `ls` prints one line for each file, and each of them fits. -/
theorem fits_cmdLs (s : Shell) : (cmdLs s).Fits ↔ s.Fits := by
  unfold cmdLs
  dsimp only
  split
  · rw [fits_say, fits_foldl fun s' i _ => fits_lsLine s.files s' i, fits_say]
  · rw [fits_foldl fun s' i _ => fits_lsLine s.files s' i, fits_say]

/-- The loop of `cat` prints its line buffer with `term_print`, never through `xsprintf`. -/
theorem fits_catLoop (f : VfsFile) (is : List Nat) (s : Shell) (lineBuf : List UInt8) :
    (catLoop f (s, lineBuf) is).1.Fits ↔ s.Fits := by
  induction is generalizing s lineBuf with
  | nil => rfl
  | cons i is ih =>
      rw [catLoop]
      split
      · rw [ih, fits_print]
      · rw [ih]

/-- `cat` prints what is left in the line buffer at the end, which is no call of `xsprintf` either.
-/
theorem fits_catFile (f : VfsFile) (s : Shell) : (catFile f s).Fits ↔ s.Fits := by
  unfold catFile
  dsimp only
  split
  · rw [fits_print, fits_catLoop]
  · rw [fits_catLoop]

/-- The message that there is no such file fits for any name, so a command on a file fits if what it
does with the file does. -/
theorem fits_withFile {fname : List UInt8} {s : Shell} {body : VfsFile → Shell → Shell}
    (h : ∀ f, (body f s).Fits ↔ s.Fits) : (withFile fname s body).Fits ↔ s.Fits := by
  unfold withFile
  split
  · exact fits_say _ _
  · exact h _

/-- The usage is a text of the source, so a command with an argument fits if it does for every first
word. -/
theorem fits_withArg {usage : String} {rest : Option (List UInt8)} {s : Shell}
    {body : List UInt8 → Shell → Shell}
    (h : ∀ fname, (strtok (str " ") rest).1 = some fname → ((body fname s).Fits ↔ s.Fits)) :
    (withArg usage rest s body).Fits ↔ s.Fits := by
  unfold withArg
  split
  · exact fits_say _ _
  · next fname hf => exact h fname hf

/-- Only a stored name can be removed, and it is short. -/
theorem strlen_le_of_vfsRemove {files : Files} {name : List UInt8}
    (h : (vfsRemove files name).2 = 0) : strlen name ≤ 31 := by
  unfold vfsRemove at h
  split at h
  · next i hf => exact strlen_le_of_findFile hf
  · cases h

/-- The line of `rm` fits: it names a file that was there, and a stored name has at most 31
characters. -/
theorem fits_cmdRm (rest : Option (List UInt8)) (s : Shell) : (cmdRm rest s).Fits ↔ s.Fits := by
  refine fits_withArg fun fname _ => ?_
  dsimp only
  split
  · next hr =>
      have hlen := strlen_le_of_vfsRemove hr
      exact (fits_printf_short 31 (by simpa [size_str] using hlen) rfl rfl).trans (fits_files _)
  · exact (fits_say _ _).trans (fits_files _)

/-- The line of `date` fits for whatever the clock answers: no field has more than four digits. -/
theorem fits_cmdDate (env : Env) (s : Shell) : (cmdDate env s).Fits ↔ s.Fits := by
  let d := rtcGetDatetime env.hw.rtc
  have hsmall : ∀ a ∈ [d.year, d.month, d.day, d.hour, d.minute, d.second].map intArg,
      a.size ≤ 4 := fun a ha => by
    obtain ⟨n, hn, rfl⟩ := List.mem_map.1 ha
    have hlt := rtcGetDatetime_lt env.hw.rtc n hn
    exact size_intArg_small (by omega) (by omega) (by omega)
  exact fits_printf_short 4 hsmall rfl rfl

/-- The lines of `mem` fit: all that is filled in are numbers. -/
theorem fits_cmdMem (env : Env) (s : Shell) : (cmdMem env s).Fits ↔ s.Fits := by
  unfold cmdMem
  rw [fits_printf_short 11 (by simp [size_int_le]) rfl rfl,
    fits_printf_short 11 (by simp [size_int_le]) rfl rfl,
    fits_printf_short 11 (by simp [size_int_le]) rfl rfl]

/-- Of a row of `hexdump` only the offset goes through `xsprintf`, and its text is short for every
offset. By induction on the rows. -/
theorem fits_hexdumpRows (f : VfsFile) (rows i : Nat) (s : Shell) :
    (hexdumpRows f rows i s).Fits ↔ s.Fits := by
  induction rows generalizing i s with
  | zero => rfl
  | succ rows ih =>
      have hrow : (s.sprintf 128 "%08x  " [intArg i]).1.Fits ↔ s.Fits :=
        fits_sprintf.trans (and_iff_left ⟨_, rfl, by decide⟩)
      rw [hexdumpRows]
      split
      · dsimp only
        split
        · rw [fits_say, fits_print, hrow]
        · rw [ih, fits_print, hrow]
      · rfl

/-- `echo` prints the rest of the line with `term_print`, not through `xsprintf`. -/
theorem fits_cmdEcho (rest : Option (List UInt8)) (s : Shell) :
    (cmdEcho rest s).Fits ↔ s.Fits := by
  unfold cmdEcho
  split
  · rfl
  · exact fits_print _ _

/-- The messages of `write` are texts of the source. -/
theorem fits_cmdWrite (rest : Option (List UInt8)) (s : Shell) :
    (cmdWrite rest s).Fits ↔ s.Fits := by
  unfold cmdWrite
  dsimp only
  split
  · exact (fits_say _ _).trans (fits_files _)
  · exact fits_say _ _

/-- The line of `wc` fits: it prints three numbers of at most eleven characters. -/
theorem fits_cmdWc (rest : Option (List UInt8)) (s : Shell) : (cmdWc rest s).Fits ↔ s.Fits :=
  fits_withArg fun _ _ => fits_withFile fun _ =>
    fits_printf_short 11 (by simp [size_intArg_le]) rfl rfl

/-- The messages of `cp` are texts of the source. -/
theorem fits_cmdCp (rest : Option (List UInt8)) (s : Shell) : (cmdCp rest s).Fits ↔ s.Fits := by
  unfold cmdCp
  dsimp only
  split
  · split
    · exact fits_say _ _
    · exact (fits_say _ _).trans (fits_files _)
  · exact fits_say _ _

/-- The lines of `stat` fit: what is filled in is a number, or a stored name of at most 31
characters. -/
theorem fits_cmdStat (rest : Option (List UInt8)) (s : Shell) :
    (cmdStat rest s).Fits ↔ s.Fits := by
  refine fits_withArg fun _ _ => fits_withFile fun f => ?_
  rw [fits_printf_short 0 (by simp) rfl rfl,
    fits_printf_short 11 (by simp [size_intArg_le]) rfl rfl,
    fits_printf_short 31 (by simpa [size_str] using f.strlen_name_le) rfl rfl]

end

end OnkenOS
