import OnkenOS.Apps.TerminalFits

/-!
# What a key does outside the terminal

Of the effects of a key only two kinds reach the other modules: an application that is launched and
a task that is destroyed. A key has at most one of them (`terminalHandleKey_acts`): the launch of an
application the command names, or the task 43 that `exit` destroys.
-/

namespace OnkenOS

/-- The effect reaches the windows or the tasks. -/
def Effect.acts : Effect → Bool
  | .sprintf .. => false
  | .print .. => false
  | .launch .. => true
  | .destroyTask .. => true

/-- The effects that reach the windows or the tasks. -/
def Shell.acts (s : Shell) : List Effect := s.effects.filter Effect.acts

section
variable {s : Shell} {rest : Option (List UInt8)}

/-! ## Output -/

@[simp] theorem acts_files (files : Files) : ({ s with files := files } : Shell).acts = s.acts :=
  rfl

@[simp] theorem acts_term (t : Terminal) : ({ s with term := t } : Shell).acts = s.acts := rfl

/-- A line that is printed acts on nothing outside the terminal. -/
@[simp] theorem acts_print (msg : List UInt8) (color : BitVec 32) :
    (s.print msg color).acts = s.acts := by
  simp [Shell.acts, Shell.print, Effect.acts]

@[simp] theorem acts_say (msg : String) (color : BitVec 32) : (s.say msg color).acts = s.acts :=
  acts_print _ _

/-- Nor does a call of `xsprintf`. -/
@[simp] theorem acts_sprintf (size : Nat) (format : String) (args : List Arg) :
    (s.sprintf size format args).1.acts = s.acts := by
  simp [Shell.acts, Shell.sprintf, Effect.acts]

@[simp] theorem acts_printf (size : Nat) (color : BitVec 32) (format : String) (args : List Arg) :
    (s.printf size color format args).acts = s.acts := by
  simp [Shell.printf]

/-- A loop each round of which only prints does so as a whole, by induction on what it goes through.
-/
theorem acts_foldl {α : Type*} {f : Shell → α → Shell} (h : ∀ s x, (f s x).acts = s.acts)
    (l : List α) (s : Shell) : (l.foldl f s).acts = s.acts := by
  induction l generalizing s with
  | nil => rfl
  | cons x l ih => rw [List.foldl_cons, ih, h]

/-- A command on a file acts outside the terminal only if what it does with the file does: the
message that there is none is a line. -/
theorem acts_withFile {fname : List UInt8} {body : VfsFile → Shell → Shell}
    (h : ∀ f, (body f s).acts = s.acts) : (withFile fname s body).acts = s.acts := by
  unfold withFile
  split
  · exact acts_say _ _
  · exact h _

/-- A command with an argument acts outside the terminal only if it does with some first word: its
usage is a line. -/
theorem acts_withArg {usage : String} {body : List UInt8 → Shell → Shell}
    (h : ∀ fname, (body fname s).acts = s.acts) : (withArg usage rest s body).acts = s.acts := by
  unfold withArg
  split
  · exact acts_say _ _
  · exact h _

/-! ## The commands that only print -/

/-- The banner prints lines and does nothing else. -/
theorem acts_showFastfetch (env : Env) (s : Shell) : (showFastfetch env s).acts = s.acts := by
  simp [showFastfetch]

/-- `help` prints lines and does nothing else. -/
theorem acts_cmdHelp (env : Env) (s : Shell) : (cmdHelp env s).acts = s.acts := by
  have happ : ∀ (s : Shell) i, (helpApp env.registry s i).acts = s.acts := by
    intro s i
    unfold helpApp
    split
    · split <;> simp
    · rfl
  have hline : ∀ (s : Shell) (line : String), (s.say line 0xFFFFFF).acts = s.acts :=
    fun _ _ => acts_say _ _
  unfold cmdHelp
  rw [acts_foldl happ, acts_say, acts_foldl hline, acts_say]

/-- `ls` prints lines and does nothing else. -/
theorem acts_cmdLs (s : Shell) : (cmdLs s).acts = s.acts := by
  have hline : ∀ (files : Files) (s : Shell) i, (lsLine files s i).acts = s.acts := by
    intro files s i
    unfold lsLine
    split <;> simp
  unfold cmdLs
  dsimp only
  split
  · rw [acts_say, acts_foldl (hline s.files), acts_say]
  · rw [acts_foldl (hline s.files), acts_say]

/-- The loop of `cat` prints lines and does nothing else, by induction on the bytes that are left.
-/
theorem acts_catLoop (f : VfsFile) (is : List Nat) (s : Shell) (lineBuf : List UInt8) :
    (catLoop f (s, lineBuf) is).1.acts = s.acts := by
  induction is generalizing s lineBuf with
  | nil => rfl
  | cons i is ih =>
      rw [catLoop]
      split
      · rw [ih, acts_print]
      · rw [ih]

/-- `cat` prints lines and does nothing else, whether or not there is such a file. -/
theorem acts_cmdCat (s : Shell) : (cmdCat rest s).acts = s.acts := by
  refine acts_withArg fun _ => acts_withFile fun f => ?_
  unfold catFile
  dsimp only
  split
  · rw [acts_print, acts_catLoop]
  · rw [acts_catLoop]

/-- `pci` prints lines and does nothing else, however many functions the scan finds. -/
theorem acts_cmdPci (env : Env) (s : Shell) : (cmdPci env s).acts = s.acts := by
  unfold cmdPci
  rw [acts_foldl (fun _ _ => acts_printf _ _ _ _), acts_printf]

/-- The rows of `hexdump` are lines and nothing else, by induction on their number. -/
theorem acts_hexdumpRows (f : VfsFile) (rows i : Nat) (s : Shell) :
    (hexdumpRows f rows i s).acts = s.acts := by
  induction rows generalizing i s with
  | zero => rfl
  | succ rows ih =>
      rw [hexdumpRows]
      split
      · dsimp only
        split
        · rw [acts_say, acts_print, acts_sprintf]
        · rw [ih, acts_print, acts_sprintf]
      · rfl

/-! ## The commands -/

/-- The other commands do not reach the other modules: they print lines, and write the files and the
terminal's own variables. -/
theorem acts_runBuiltin (env : Env) {b : Builtin} (hb : b ≠ .exit) (rest : Option (List UInt8))
    (s : Shell) : (runBuiltin env b rest s).acts = s.acts := by
  cases b with
  | help => exact acts_cmdHelp env s
  | ls => exact acts_cmdLs s
  | cat => exact acts_cmdCat s
  | touch =>
      refine acts_withArg fun _ => ?_
      dsimp only
      split <;> simp
  | rm =>
      refine acts_withArg fun _ => ?_
      dsimp only
      split <;> simp
  | pci => exact acts_cmdPci env s
  | date => simp [runBuiltin, cmdDate]
  | mem => simp [runBuiltin, cmdMem]
  | hexdump => exact acts_withArg fun _ => acts_withFile fun f => acts_hexdumpRows f _ _ s
  | echo =>
      unfold runBuiltin cmdEcho
      dsimp only
      split <;> simp
  | write =>
      unfold runBuiltin cmdWrite
      dsimp only
      split <;> simp
  | wc => exact acts_withArg fun _ => acts_withFile fun f => acts_printf _ _ _ _
  | cp =>
      unfold runBuiltin cmdCp
      dsimp only
      split
      · split <;> simp
      · simp
  | stat => exact acts_withArg fun _ => acts_withFile fun f => by simp
  | fetch => exact acts_showFastfetch env s
  | cd => simp [runBuiltin, cmdCd]
  | ver => simp [runBuiltin, cmdVer]
  | clear => rfl
  | exit => exact absurd rfl hb

/-- `exit` destroys the task 43, whatever task the terminal has. -/
theorem acts_cmdExit (s : Shell) : (cmdExit s).acts = s.acts ++ [.destroyTask 43] := by
  simp [cmdExit, Shell.acts, Effect.acts]

/-- An application is launched once, with the arguments that stood behind its name. -/
theorem acts_launchApp (env : Env) (app : AppEntry) (args : Option (List UInt8)) (s : Shell) :
    (launchApp env app args s).acts = s.acts ++ [.launch app args] := by
  unfold launchApp
  dsimp only
  split
  · rw [acts_printf]
    simp [Shell.acts, Effect.acts]
  · rw [acts_printf]
    simp [Shell.acts, Effect.acts]

end

/-- What a key may do outside the terminal. -/
def KeyActs (acts : List Effect) : Prop :=
  acts = [] ∨ (∃ app ∈ systemApps, ∃ args, acts = [.launch app args]) ∨ acts = [.destroyTask 43]

/-- A command line does at most one thing outside the terminal: it launches an application of the
registry, or it destroys the task 43. -/
theorem execCommand_acts (env : Env) (cmd : List UInt8) (s : Shell) :
    ∃ acts, KeyActs acts ∧ (execCommand env cmd s).acts = s.acts ++ acts := by
  unfold execCommand
  dsimp only
  split
  · exact ⟨[], .inl rfl, (List.append_nil _).symm⟩
  · split
    · next app happ =>
        exact ⟨_, .inr (.inl ⟨app, appToLaunch_mem happ, _, rfl⟩), acts_launchApp env app _ s⟩
    · split
      · next b _ =>
          rcases eq_or_ne b .exit with rfl | hb
          · exact ⟨_, .inr (.inr rfl), acts_cmdExit s⟩
          · exact ⟨[], .inl rfl, by rw [acts_runBuiltin env hb, List.append_nil]⟩
      · exact ⟨[], .inl rfl, by simp [cmdUnknown]⟩

/-- Enter does what the command line does: the echo and the history stay in the terminal. -/
theorem acts_handleEnter (env : Env) (s : Shell) :
    ∃ acts, KeyActs acts ∧ (handleEnter env s).acts = s.acts ++ acts := by
  obtain ⟨acts, hacts, he⟩ := execCommand_acts env (terminate s.term).cmdBuf
    (echoLine { s with term := terminate s.term })
  refine ⟨acts, hacts, ?_⟩
  unfold handleEnter
  dsimp only
  rw [acts_term]
  refine he.trans ?_
  simp [echoLine]

/-- The list of matches that Tab prints is lines and nothing else. -/
theorem acts_showMatches (s : Shell) (line : List UInt8) (ms : List (List UInt8)) :
    (showMatches s line ms).acts = s.acts := by
  induction ms generalizing s line with
  | nil =>
      unfold showMatches
      split <;> simp
  | cons m ms ih =>
      rw [showMatches, ih]
      split <;> simp

/-- Tab changes the line or prints the matches, and does nothing outside the terminal. -/
theorem acts_handleTab (env : Env) (s : Shell) : (handleTab env s).acts = s.acts := by
  unfold handleTab
  split
  · dsimp only
    split
    · rfl
    · rfl
    · rw [acts_showMatches]
      simp [echoLine]
  · rfl

/-- A key launches one application, destroys the task 43, or does nothing outside the terminal. -/
theorem terminalHandleKey_acts (env : Env) (active : Bool) (c : UInt8) (s : Shell) :
    ∃ acts, KeyActs acts ∧ (terminalHandleKey env active c s).acts = s.acts ++ acts := by
  have hnone (s' : Shell) (h : s'.acts = s.acts) :
      ∃ acts, KeyActs acts ∧ s'.acts = s.acts ++ acts := ⟨[], .inl rfl, by simpa using h⟩
  unfold terminalHandleKey
  split
  · exact hnone s rfl
  · split
    · exact acts_handleEnter env s
    · split
      · exact hnone _ rfl
      · split
        · exact hnone _ (acts_handleTab env s)
        · split
          · exact hnone _ rfl
          · exact hnone s rfl

end OnkenOS
