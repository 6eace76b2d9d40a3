import Mathlib.Data.List.TakeWhile
import OnkenOS.Apps.TerminalFits

/-!
# The words of a command line

`exec_command` reads its line with `strtok`: the words between the spaces, or all that is left.
On a line that is written out as its words and the spaces between them `strtok` returns these
words (`strtok_word`), and `exec_command` runs the command (`execCommand_builtin`) or launches the
application (`execCommand_app`) that the first one names.
-/

namespace OnkenOS

/-- Spaces only. -/
def Spaces (s : List UInt8) : Prop := ∀ c ∈ s, c = 32

/-- A word: some bytes, and no space among them. -/
def IsWord (w : List UInt8) : Prop := w ≠ [] ∧ 32 ∉ w

/-- What stands behind a word: nothing, or a space and the rest of the line. -/
def afterWord : Option (List UInt8) → List UInt8
  | none => []
  | some rest => 32 :: rest

/-- The line is the command and the name of a file, with anything behind it. -/
def FileLine (command cmd name : List UInt8) : Prop :=
  cmd.length ≤ 127 ∧ 0 ∉ cmd ∧ IsWord name ∧ ∃ pad pad' rest, Spaces pad ∧ Spaces pad' ∧
    cmd = pad ++ (command ++ afterWord (some (pad' ++ (name ++ afterWord rest))))

/-- No characters at all are only spaces. -/
theorem spaces_nil : Spaces [] := fun _ hc => (by cases hc)

/-- What is behind a word of a string is a string. -/
theorem zero_not_mem_rest {pad w rest : List UInt8} (h : 0 ∉ pad ++ (w ++ afterWord (some rest))) :
    0 ∉ rest :=
  fun hmem => h (List.mem_append_right _ (List.mem_append_right _ (.tail _ hmem)))

section
variable {s w pad : List UInt8}

/-! ## `strtok` -/

/-- The only delimiter of `" "` is the space. -/
theorem strchr_space (c : UInt8) : (strchr c (str " ")).isSome = decide (c = 32) := by
  change (if (32 : UInt8) = 0 then none
    else if (32 : UInt8) = c then some [32] else none).isSome = _
  rw [if_neg (by decide)]
  by_cases hc : c = 32
  · simp [hc]
  · simp [hc, Ne.symm hc]

/-- The first word of a line, and what is behind the space after it. -/
theorem strtok_word (rest : Option (List UInt8)) (hpad : Spaces pad) (hw : IsWord w)
    (hzero : 0 ∉ pad ++ (w ++ afterWord rest)) :
    strtok (str " ") (some (pad ++ (w ++ afterWord rest))) = (some w, rest) := by
  obtain ⟨hne, hspace⟩ := hw
  have hword : ∀ c ∈ w, (strchr c (str " ")).isNone = true := by
    intro c hc
    have hc32 : c ≠ 32 := fun he => hspace (he ▸ hc)
    rw [← Option.not_isSome, strchr_space, decide_eq_false hc32]
    rfl
  have hskip : ∀ c ∈ pad, (strchr c (str " ")).isSome = true := by
    intro c hc
    rw [strchr_space, hpad c hc]
    rfl
  have hdrop : (w ++ afterWord rest).dropWhile (fun c => (strchr c (str " ")).isSome) =
      w ++ afterWord rest := by
    cases w with
    | nil => exact absurd rfl hne
    | cons c w =>
        have hfirst := hword c (.head w)
        rw [← Option.not_isSome, Bool.not_eq_true'] at hfirst
        rw [List.cons_append, List.dropWhile_cons_of_neg (by simp [hfirst])]
  have htake : (w ++ afterWord rest).takeWhile (fun c => (strchr c (str " ")).isNone) = w := by
    rw [List.takeWhile_append_of_pos hword]
    cases rest with
    | none => exact List.append_nil w
    | some rest => simp [afterWord, ← Option.not_isSome, strchr_space]
  have hnil : ¬ w ++ afterWord rest = [] := fun he => hne (List.append_eq_nil_iff.1 he).1
  simp only [strtok]
  rw [cstr_of_zero_not_mem hzero, List.dropWhile_append_of_pos hskip, hdrop, if_neg hnil, htake,
    List.drop_left]
  cases rest <;> rfl

/-- Without delimiters the token is all that is left, if anything is. -/
theorem strtok_rest (hzero : 0 ∉ s) (hne : s ≠ []) : strtok (str "") (some s) = (some s, none) := by
  have hnone : ∀ c : UInt8, strchr c (str "") = none := fun _ => rfl
  simp only [strtok, cstr_of_zero_not_mem hzero, hnone]
  have hdrop : s.dropWhile (fun _ => (none : Option (List UInt8)).isSome) = s := by
    cases s with
    | nil => rfl
    | cons c s => simp
  have htake : s.takeWhile (fun _ => (none : Option (List UInt8)).isNone) = s :=
    List.takeWhile_eq_self_iff.2 fun _ _ => rfl
  rw [hdrop, if_neg hne, htake, List.drop_length]

end

/-! ## `exec_command` -/

/-- No application has the name of a command, so the commands are not hidden by the applications
that are looked for first. -/
theorem appToLaunch_of_builtin (registry : Registry) {argv0 : List UInt8} {b : Builtin}
    (h : builtinOf argv0 = some b) : appToLaunch registry argv0 = none := by
  have hnames : ∀ a ∈ systemApps, ∀ e ∈ builtinNames, cstr a.name ≠ cstr (str e.1) := by decide
  obtain ⟨e, he, -⟩ := Option.map_eq_some_iff.1 h
  have hcmp := List.find?_some he
  rw [beq_iff_eq, strcmp_eq_zero_iff] at hcmp
  unfold appToLaunch
  cases happ : appFind registry argv0 with
  | none => rfl
  | some a =>
      have hname := List.find?_some happ
      rw [beq_iff_eq, strcmp_eq_zero_iff] at hname
      exact absurd (hname.trans hcmp) (hnames a (appFind_mem happ) e (List.mem_of_find?_eq_some he))

/-- The local copy of a line that fits is the line. -/
theorem strtok_temp {cmd : List UInt8} (hcmd : strlen cmd ≤ 127) (delim : List UInt8) :
    strtok delim (some ((strncpy (List.replicate maxCmd 0) cmd (maxCmd - 1)).set (maxCmd - 1) 0)) =
      strtok delim (some cmd) := by
  have htemp : cstr ((strncpy (List.replicate maxCmd 0) cmd (maxCmd - 1)).set (maxCmd - 1) 0) =
      cstr cmd :=
    (cstr_strncpy_set (n := 127) cmd (List.length_replicate (n := 128))).trans
      (List.take_of_length_le hcmd)
  rw [← strtok_cstr, htemp, strtok_cstr]

section
variable (env : Env) {cmd argv0 : List UInt8} {rest : Option (List UInt8)}

/-- A line whose first word is a command runs that command on what is behind the word. -/
theorem execCommand_builtin (hcmd : strlen cmd ≤ 127)
    (hword : strtok (str " ") (some cmd) = (some argv0, rest)) {b : Builtin}
    (hb : builtinOf argv0 = some b) (s : Shell) :
    execCommand env cmd s = runBuiltin env b rest s := by
  simp only [execCommand, strtok_temp hcmd, hword, appToLaunch_of_builtin env.registry hb, hb]

/-- A line whose first word is an application launches it with what is behind the word. -/
theorem execCommand_app (hcmd : strlen cmd ≤ 127)
    (hword : strtok (str " ") (some cmd) = (some argv0, rest)) {app : AppEntry}
    (happ : appToLaunch env.registry argv0 = some app) (s : Shell) :
    execCommand env cmd s = launchApp env app (launchArgs rest) s := by
  simp only [execCommand, strtok_temp hcmd, hword, happ]

/-- The name on a line has no NUL. -/
theorem FileLine.zero_not_mem {command name : List UInt8} (h : FileLine command cmd name) :
    0 ∉ name := by
  obtain ⟨-, hzero, -, pad, pad', rest, -, -, rfl⟩ := h
  exact fun hmem =>
    zero_not_mem_rest hzero (List.mem_append_right _ (List.mem_append_left _ hmem))

/-- A command with the name of a file: its handler finds the name. -/
theorem FileLine.execCommand {command name : List UInt8} (h : FileLine command cmd name)
    (hcommand : IsWord command) {b : Builtin} (hb : builtinOf command = some b) (s : Shell) :
    ∃ rest rest', execCommand env cmd s = runBuiltin env b rest s ∧
      strtok (str " ") rest = (some name, rest') := by
  obtain ⟨hlen, hzero, hname, pad, pad', rest, hpad, hpad', rfl⟩ := h
  have hword := strtok_word (some (pad' ++ (name ++ afterWord rest))) hpad hcommand hzero
  have hword' := strtok_word rest hpad' hname (zero_not_mem_rest hzero)
  exact ⟨_, _, execCommand_builtin env ((strlen_le_length _).trans hlen) hword hb s, hword'⟩

end

end OnkenOS
