import OnkenOS.Lib.Run
import OnkenOS.Apps.TerminalLine
import OnkenOS.Apps.TerminalOutput

/-!
# Which lines overflow

Four calls of `xsprintf` in the terminal have room only for short lines: the echo of the line
(on Enter, and on Tab with several matches), the name `touch` has created, the arguments of a
launch, and the name of a command that is not there. `KeyFits` says which keys leave them room,
and `terminal_output_fits_iff` that these are the sequences of keys without an overflow.
-/

namespace OnkenOS

open Machine

/-! ## Keys -/

/-- A key, and what it finds. -/
structure KeyEvent where
  env : Env
  files : Files
  active : Bool
  key : UInt8

/-- One key. -/
def handleKey (t : Terminal) (e : KeyEvent) : Shell :=
  terminalHandleKey e.env e.active e.key
    { term := t, files := e.files, closed := false, effects := [] }

/-- The terminal after a key. -/
def keyStep (t : Terminal) (e : KeyEvent) : Terminal := (handleKey t e).term

section

/-! ## Calls that need a short line -/

/-- Without a width `%s` writes the characters up to the NUL, and nothing else. -/
theorem length_convStr_zero (t : List UInt8) : (convStr ⟨0, false, false⟩ t).length = strlen t := by
  rw [length_convStr]
  exact Nat.max_eq_right (Nat.zero_le _)

/-- The prompt takes thirteen characters besides the directory and the line, and the NUL one more.
-/
theorem fits_echoLine (s : Shell) : (echoLine s).Fits ↔
    s.Fits ∧ strlen s.term.currentDir + strlen s.term.cmdBuf ≤ 114 := by
  have hout : xsprintf (str "root@onken:%s$ %s") [.str s.term.currentDir, .str s.term.cmdBuf] =
      some (str "root@onken:" ++ (convStr ⟨0, false, false⟩ s.term.currentDir ++
        (str "$ " ++ (convStr ⟨0, false, false⟩ s.term.cmdBuf ++ [])))) := rfl
  have hlit : (str "root@onken:").length = 11 ∧ (str "$ ").length = 2 := ⟨rfl, rfl⟩
  unfold echoLine
  rw [fits_printf, room_iff hout]
  simp only [List.length_append, length_convStr_zero, hlit, List.length_nil]
  exact and_congr_right fun _ => by omega

/-- `touch` puts a name of any length into 64 bytes, so its message fits if the name has at most 55
characters, or the table is full and another message is printed. -/
theorem fits_cmdTouch (rest : Option (List UInt8)) (s : Shell) : (cmdTouch rest s).Fits ↔
    s.Fits ∧ ∀ fname, (strtok (str " ") rest).1 = some fname →
      strlen fname ≤ 55 ∨ ∀ i, (s.files i).used = true := by
  unfold cmdTouch withArg
  split
  · next hnone =>
      rw [fits_say]
      exact ⟨fun h => ⟨h, fun fname hf => by rw [hnone] at hf; cases hf⟩, And.left⟩
  · next fname hsome =>
      have hout : xsprintf (str "Created %s") [.str fname] =
          some (str "Created " ++ (convStr ⟨0, false, false⟩ fname ++ [])) := rfl
      have hlit : (str "Created ").length = 8 := rfl
      have hroom : Room 64 (xsprintf (str "Created %s") [.str fname]) ↔ strlen fname ≤ 55 := by
        rw [room_iff hout]
        simp only [List.length_append, length_convStr_zero, hlit, List.length_nil]
        omega
      -- a name that is too long for the message is too long for a slot
      have hlong : ¬ strlen fname ≤ 55 →
          ((vfsCreate s.files fname).2 = 0 ↔ ¬ ∀ i, (s.files i).used = true) := fun hcon => by
        rw [vfsCreate_long (by omega), not_forall]
        exact exists_congr fun i => (Bool.not_eq_true _).symm.to_iff
      simp only [hsome, Option.some.injEq, forall_eq']
      split
      · next hr =>
          refine (fits_printf _).trans (and_congr Iff.rfl (hroom.trans ⟨.inl, fun h => ?_⟩))
          by_contra hcon
          exact (hlong hcon).1 hr (h.resolve_left hcon)
      · next hr =>
          refine (fits_say _ _).trans ⟨fun h => ⟨h, ?_⟩, And.left⟩
          by_contra hcon
          rw [not_or] at hcon
          exact hr ((hlong hcon.1).2 hcon.2)

/-- A launch shows the application's name and its arguments, in an array that has room for 128
characters. -/
theorem fits_launchApp (env : Env) {app : AppEntry} (happ : app ∈ systemApps)
    (args : Option (List UInt8)) (s : Shell) : (launchApp env app args s).Fits ↔
    s.Fits ∧ ∀ a, args = some a → strlen app.name + strlen a ≤ 106 := by
  have hlaunch : ∀ {s' : Shell}, s'.effects = s.effects ++ [.launch app args] →
      (s'.Fits ↔ s.Fits) := fun he => by
    unfold Shell.Fits
    rw [he]
    exact fits_append.trans (and_iff_left trivial)
  have hname := (systemApps_short app happ).1
  unfold launchApp
  cases args with
  | none =>
      refine (fits_printf_short 11 (by simpa [size_str] using hname) rfl rfl).trans ?_
      rw [hlaunch rfl]
      exact ⟨fun h => ⟨h, fun a ha => by cases ha⟩, And.left⟩
  | some a =>
      have hout : xsprintf (str "Launched %s with args: %s") [.str app.name, .str a] =
          some (str "Launched " ++ (convStr ⟨0, false, false⟩ app.name ++
            (str " with args: " ++ (convStr ⟨0, false, false⟩ a ++ [])))) := rfl
      have hlit : (str "Launched ").length = 9 ∧ (str " with args: ").length = 12 := ⟨rfl, rfl⟩
      rw [fits_printf, room_iff hout, hlaunch rfl]
      simp only [List.length_append, length_convStr_zero, hlit, List.length_nil,
        Option.some.injEq, forall_eq']
      exact and_congr_right fun _ => by omega

/-- A name that is no command is shown with 34 characters around it. -/
theorem fits_cmdUnknown (argv0 : List UInt8) (s : Shell) : (cmdUnknown argv0 s).Fits ↔
    s.Fits ∧ strlen argv0 ≤ 93 := by
  have hout : xsprintf (str "'%s' is not recognized. Type 'help'.") [.str argv0] =
      some (str "'" ++ (convStr ⟨0, false, false⟩ argv0 ++
        str "' is not recognized. Type 'help'.")) := rfl
  have hlit : (str "'").length = 1 ∧ (str "' is not recognized. Type 'help'.").length = 33 :=
    ⟨rfl, rfl⟩
  unfold cmdUnknown
  rw [fits_printf, room_iff hout]
  simp only [List.length_append, length_convStr_zero, hlit]
  exact and_congr_right fun _ => by omega

/-! ## Commands -/

/-- The command line leaves room for what its command prints. -/
def CommandFits (env : Env) (files : Files) (cmd : List UInt8) : Prop :=
  match strtok (str " ") (some cmd) with
  | (none, _) => True
  | (some argv0, rest) =>
      match appToLaunch env.registry argv0 with
      | some app => ∀ args, launchArgs rest = some args → strlen app.name + strlen args ≤ 106
      | none =>
          match builtinOf argv0 with
          | some b => b = .touch → ∀ fname, (strtok (str " ") rest).1 = some fname →
              strlen fname ≤ 55 ∨ ∀ i, (files i).used = true
          | none => strlen argv0 ≤ 93

/-- The key leaves room for what it prints: on Enter the line and its command, on Tab the line
if there are several matches. -/
def KeyFits (t : Terminal) (e : KeyEvent) : Prop :=
  e.active = true →
    if e.key = 10 ∨ e.key = 13 then
      strlen t.currentDir + t.cmdLen ≤ 114 ∧ CommandFits e.env e.files (cstr t.cmdBuf)
    else if e.key = 9 then
      0 < t.cmdLen →
        1 < (tabMatches e.env e.files t.cmdBuf (wordStart t.cmdBuf t.cmdLen)).length →
          strlen t.currentDir + t.cmdLen ≤ 114
    else True

/-- What a command launches is an application of the registry. -/
theorem appToLaunch_mem {registry : Registry} {argv0 : List UInt8} {app : AppEntry}
    (h : appToLaunch registry argv0 = some app) : app ∈ systemApps :=
  appFind_mem (Option.filter_eq_some_iff.1 h).1

/-- Every command but `touch` has room for what it prints. One case for each, from the lemmas on the
commands. -/
theorem fits_runBuiltin (env : Env) {b : Builtin} (hb : b ≠ .touch) (rest : Option (List UInt8))
    (s : Shell) : (runBuiltin env b rest s).Fits ↔ s.Fits := by
  cases b with
  | help => exact fits_cmdHelp env s
  | ls => exact fits_cmdLs s
  | cat => exact fits_withArg fun _ _ => fits_withFile fun f => fits_catFile f s
  | touch => exact absurd rfl hb
  | rm => exact fits_cmdRm rest s
  | pci => exact fits_cmdPci env s
  | date => exact fits_cmdDate env s
  | mem => exact fits_cmdMem env s
  | hexdump =>
      exact fits_withArg fun _ _ => fits_withFile fun f => fits_hexdumpRows f (f.size + 1) 0 s
  | echo => exact fits_cmdEcho rest s
  | write => exact fits_cmdWrite rest s
  | wc => exact fits_cmdWc rest s
  | cp => exact fits_cmdCp rest s
  | stat => exact fits_cmdStat rest s
  | fetch => exact fits_showFastfetch env s
  | cd => exact fits_term _
  | ver => exact (fits_say _ _).trans (fits_say _ _)
  | clear => exact fits_term _
  | exit => exact fits_append.trans (and_iff_left trivial)

/-- `strtok` does not look behind the NUL of its string. -/
theorem strtok_cstr (delim s : List UInt8) :
    strtok delim (some (cstr s)) = strtok delim (some s) := by
  simp only [strtok, cstr_of_zero_not_mem (zero_not_mem_cstr s)]

/-- What the command prints fits exactly under the condition on its line; that the other commands
always fit is said above. -/
theorem fits_execCommand (env : Env) {cmd : List UInt8} (hcmd : strlen cmd ≤ 127) (s : Shell) :
    (execCommand env cmd s).Fits ↔ s.Fits ∧ CommandFits env s.files (cstr cmd) := by
  have htemp : cstr ((strncpy (List.replicate maxCmd 0) cmd (maxCmd - 1)).set (maxCmd - 1) 0) =
      cstr cmd :=
    (cstr_strncpy_set (n := 127) cmd (List.length_replicate (n := 128))).trans
      (List.take_of_length_le hcmd)
  unfold execCommand CommandFits
  dsimp only
  rw [← strtok_cstr _ (List.set _ _ _), htemp]
  rcases strtok (str " ") (some (cstr cmd)) with ⟨_ | argv0, rest⟩
  · exact (and_iff_left trivial).symm
  dsimp only
  cases happ : appToLaunch env.registry argv0 with
  | some app => exact fits_launchApp env (appToLaunch_mem happ) _ s
  | none =>
      cases hb : builtinOf argv0 with
      | none => exact fits_cmdUnknown argv0 s
      | some b =>
          by_cases htouch : b = .touch
          · rw [htouch]
            exact (fits_cmdTouch rest s).trans
              (and_congr_right fun _ => ⟨fun h _ => h, fun h => h rfl⟩)
          · exact (fits_runBuiltin env htouch rest s).trans
              (and_iff_left fun h => absurd h htouch).symm

/-- The list of matches that Tab prints never goes through `xsprintf`: a line that would be too long
is printed before the next match is put on it. -/
theorem fits_showMatches (s : Shell) (line : List UInt8) (ms : List (List UInt8)) :
    (showMatches s line ms).Fits ↔ s.Fits := by
  induction ms generalizing s line with
  | nil =>
      rw [showMatches]
      split
      · exact fits_print _ _
      · rfl
  | cons m ms ih =>
      by_cases hfull : strlen line + strlen m + 2 ≥ 127
      · rw [showMatches, if_pos hfull]
        exact (ih _ _).trans (fits_print _ _)
      · rw [showMatches, if_neg hfull]
        exact ih _ _

/-- Enter prints the prompt with the line, which has room for 114 characters together with the
directory, and then what the command prints. -/
theorem fits_handleEnter (env : Env) {s : Shell} {line : List UInt8}
    (h : s.term.EditsLine line) : (handleEnter env s).Fits ↔
    s.Fits ∧ strlen s.term.currentDir + s.term.cmdLen ≤ 114 ∧
      CommandFits env s.files (cstr s.term.cmdBuf) := by
  unfold handleEnter
  rw [h.terminate]
  refine (fits_term _).trans ?_
  have hcmd : strlen (echoLine s).term.cmdBuf ≤ 127 := by
    rw [(echoLine_line h).strlen_buf, (echoLine_line h).length]
    exact h.short
  rw [fits_execCommand env hcmd, fits_echoLine, h.strlen_buf, and_assoc]
  rfl

/-- Tab prints the prompt with the line only if there are several matches. -/
theorem fits_handleTab (env : Env) {s : Shell} {line : List UInt8}
    (h : s.term.EditsLine line) : (handleTab env s).Fits ↔
    s.Fits ∧ (0 < s.term.cmdLen →
      1 < (tabMatches env s.files s.term.cmdBuf
        (wordStart s.term.cmdBuf s.term.cmdLen)).length →
        strlen s.term.currentDir + s.term.cmdLen ≤ 114) := by
  unfold handleTab
  split
  · next hpos =>
      dsimp only
      rw [h.terminate]
      split
      · next hms =>
          rw [hms]
          exact (and_iff_left fun _ h1 => absurd h1 (by decide)).symm
      · next m hms =>
          rw [hms]
          exact (and_iff_left fun _ h1 => absurd h1 (by simp)).symm
      · next hne hsingle =>
          have hlen : 1 < (tabMatches env s.files s.term.cmdBuf
              (wordStart s.term.cmdBuf s.term.cmdLen)).length := by
            rcases hms : tabMatches env s.files s.term.cmdBuf
              (wordStart s.term.cmdBuf s.term.cmdLen) with _ | ⟨m, _ | ⟨m', ms⟩⟩
            · exact absurd hms hne
            · exact absurd hms (hsingle m)
            · simp
          rw [fits_showMatches, fits_echoLine, h.strlen_buf]
          exact and_congr_right fun _ => ⟨fun h _ _ => h, fun h => h hpos hlen⟩
  · next hzero => exact ⟨fun hf => ⟨hf, fun hpos => absurd hpos hzero⟩, And.left⟩

/-- Whether a key's calls fit is decided by `KeyFits`: Enter and Tab are the only keys that print.
-/
theorem handleKey_fits_iff {t : Terminal} {line : List UInt8} (h : t.EditsLine line)
    (e : KeyEvent) : (handleKey t e).Fits ↔ KeyFits t e := by
  have hnil : ∀ t files, ({ term := t, files := files, closed := false, effects := [] } :
      Shell).Fits := fun _ _ _ he => absurd he List.not_mem_nil
  unfold handleKey terminalHandleKey KeyFits
  cases hactive : e.active with
  | false => exact ⟨fun _ hf => (by cases hf), fun _ => hnil _ _⟩
  | true =>
      rw [forall_prop_of_true rfl, if_neg (by simp)]
      split
      · exact (fits_handleEnter e.env h).trans (and_iff_right (hnil t e.files))
      split
      · next hback =>
          rw [if_neg (by rw [hback]; decide)]
          exact iff_of_true (hnil _ _) trivial
      split
      · exact (fits_handleTab e.env h).trans (and_iff_right (hnil t e.files))
      split
      · exact iff_of_true (hnil _ _) trivial
      · exact iff_of_true (hnil _ _) trivial

/-- A launched terminal begins with an empty line. -/
theorem terminalLaunch_line (env : Env) (s : Shell) :
    (terminalLaunch env s).term.EditsLine [] :=
  ⟨List.not_mem_nil, rfl, Nat.zero_le _, rfl⟩

/-- Along every sequence of keys after a launch, every call of `xsprintf` stays in its array exactly
when every key leaves it room: the guard of one key, taken along the run. -/
theorem terminal_output_fits_iff (env : Env) (s : Shell) (keys : List KeyEvent) :
    RunOk keyStep (fun t e => (handleKey t e).Fits) (terminalLaunch env s).term keys ↔
      RunOk keyStep KeyFits (terminalLaunch env s).term keys :=
  RunOk_congr (fun t => ∃ line, t.EditsLine line)
    (fun _ e h => terminalHandleKey_line h e.key) (fun _ e ⟨_, h⟩ => handleKey_fits_iff h e) keys
    ⟨[], terminalLaunch_line env s⟩

end

/-! ## A line that overflows -/

section
variable {t : Terminal} {line : List UInt8}

/-- A printable character goes to the line, whatever else the key event says. -/
theorem terminalHandleKey_char {env : Env} {c : UInt8} (hc : 32 ≤ c ∧ c < 127) (s : Shell) :
    terminalHandleKey env true c s = { s with term := typeChar s.term c } := by
  have hne : ∀ d : UInt8, d < 32 → c ≠ d := fun d hd he => by
    rw [he] at hc
    exact absurd hc.1 (UInt8.not_le.2 hd)
  unfold terminalHandleKey
  rw [if_neg (by simp), if_neg (fun h => h.elim (hne 10 (by decide)) (hne 13 (by decide))),
    if_neg (hne 8 (by decide)), if_neg (hne 9 (by decide)), if_pos hc]

/-- Typing leaves the directory. -/
theorem typeChar_currentDir (t : Terminal) (c : UInt8) :
    (typeChar t c).currentDir = t.currentDir := by
  unfold typeChar
  split <;> rfl

/-- Characters that are typed while there is room end up in the line. -/
theorem run_typed (env : Env) (files : Files) (h : t.EditsLine line) {cs : List UInt8}
    (hcs : ∀ c ∈ cs, 32 ≤ c ∧ c < 127) (hroom : line.length + cs.length ≤ 127) :
    (run keyStep t (cs.map fun c => ⟨env, files, true, c⟩)).EditsLine (line ++ cs) ∧
      (run keyStep t (cs.map fun c => ⟨env, files, true, c⟩)).currentDir = t.currentDir := by
  induction cs generalizing t line with
  | nil =>
      rw [List.append_nil]
      exact ⟨h, rfl⟩
  | cons c cs ih =>
      have hc := hcs c List.mem_cons_self
      rw [List.length_cons] at hroom
      have hstep : keyStep t ⟨env, files, true, c⟩ = typeChar t c := by
        unfold keyStep handleKey
        rw [terminalHandleKey_char hc]
      have hnext := h.typeChar (c := c) fun h0 => absurd (h0 ▸ hc.1) (by decide)
      rw [if_pos (by omega)] at hnext
      have hrest := ih hnext (fun d hd => hcs d (List.mem_cons_of_mem c hd))
        (by rw [List.length_append, List.length_singleton]; omega)
      rw [List.map_cons, run_cons, hstep]
      rw [List.append_assoc] at hrest
      exact ⟨hrest.1, hrest.2.trans (typeChar_currentDir t c)⟩

end

/-- The static initialisers of `terminal.c`. -/
def Terminal.static : Terminal where
  cmdBuf := List.replicate maxCmd 0
  cmdLen := 0
  currentDir := str "/" ++ List.replicate 63 0
  termHistory := []
  termScrollOffset := 0

/-- All applications, and hardware that reports zeros. -/
def Env.zero : Env where
  registry := ⟨systemApps, fun _ h => h⟩
  hw :=
    { rtc := ⟨0, 0, 0, 0, 0, 0, 0⟩
      cpuid := fun _ => ⟨0, 0, 0, 0⟩
      pciDevices := []
      memInfo := ⟨0, 0, 0, 0⟩
      uptimeMs := 0
      fbWidth := 0
      fbHeight := 0 }
  launch := fun _ _ files => files

/-- 114 characters and Enter: the prompt and the line take 128 characters, and the NUL is stored
behind the array. -/
theorem terminal_echo_overflows :
    ¬ RunOk keyStep (fun t e => (handleKey t e).Fits)
      (terminalLaunch Env.zero ⟨Terminal.static, Files.zero, false, []⟩).term
      ((List.replicate 114 97).map (fun c => ⟨Env.zero, Files.zero, true, c⟩) ++
        [⟨Env.zero, Files.zero, true, 10⟩]) := by
  intro hok
  have hlaunch := terminalLaunch_line Env.zero ⟨Terminal.static, Files.zero, false, []⟩
  have hchars : ∀ c ∈ List.replicate 114 (97 : UInt8), 32 ≤ c ∧ c < 127 := fun c hc => by
    rw [List.eq_of_mem_replicate hc]
    decide
  obtain ⟨hline, hdir⟩ := run_typed Env.zero Files.zero hlaunch hchars (by
    rw [List.length_replicate]
    decide)
  have henter := ((RunOk_append _ _).1 hok).2
  rw [RunOk_cons, handleKey_fits_iff hline] at henter
  have hecho := (henter.1 rfl).1
  have hroot : strlen
      (terminalLaunch Env.zero ⟨Terminal.static, Files.zero, false, []⟩).term.currentDir = 1 := rfl
  rw [hdir, hroot, hline.length] at hecho
  exact absurd hecho (by rw [List.nil_append, List.length_replicate]; decide)

end OnkenOS
