import Mathlib.Data.List.DropRight
import OnkenOS.Apps.CommandRules
import OnkenOS.Apps.TerminalDraw
import OnkenOS.Drivers.Typing
import OnkenOS.Shell.FullTable
import OnkenOS.Shell.TerminalExit

/-!
# From the keyboard to the disk

The keyboard interrupt, `last_key`, the dispatcher of `shell_loop` and the terminal as one system. A
program of command lines that is typed at the prompt, key by key, is run: the files become what the
commands say, and the lines appear on the terminal (`typed_program_runs`).

Alt is up all the time, so the call of `ps2_get_last_key` for the task switcher is not reached.
-/

namespace OnkenOS

open Machine Mailbox

/-- The keyboard with the main loop's side of `last_key`, and the rest of the system. -/
structure Console where
  keys : KeySystem
  os : Os

/-- A keyboard interrupt, with the status and the data byte it reads, or the next step of the main
loop in `ps2_get_last_key`; the second one goes on to hand the key to the application. The timer
ticks at any time. -/
inductive ConsoleEvent where
  | irq1 (status data : BitVec 8)
  | poll (hw : Hardware)
  | tick

/-- The keyboard's side of an event. -/
def ConsoleEvent.kbd : ConsoleEvent → Option KbdEvent
  | .irq1 status data => some (.irq1 status data)
  | .poll _ => some .poll
  | .tick => none

/-- The events of the system that an event brings about. -/
def Console.osEvents (s : Console) : ConsoleEvent → List OsEvent
  | .irq1 _ _ => []
  | .poll hw => (s.keys.k.map fun k => .key hw s.keys.kbd.ctrlPressed k).toList
  | .tick => [.tick]

/-- One event. -/
def consoleStep (s : Console) (e : ConsoleEvent) : Console where
  keys := run kbdStep s.keys e.kbd.toList
  os := run osStep s.os (s.osEvents e)

/-- The terminal window is active, its line is `line`, the directory is the root, the table holds
the map, and `shown` is all that was printed so far. -/
structure AtPrompt (s : Os) (line : List UInt8) (m : FileMap) (shown : List (List UInt8)) :
    Prop where
  active : ∃ a w, s.wm.openActive = some (a, w) ∧ w.title = .literal (str "Onken Terminal")
  line : s.term.EditsLine line
  root : cstr s.term.currentDir = str "/"
  holds : Holds s.files m
  history : s.term.termHistory.map HistoryLine.text = shown.rtake maxHistory

/-- Every call of `xsprintf` that a key makes in the terminal stays in its array. -/
def KeyRoom (s : Os) : OsEvent → Prop
  | .key hw _ c => (handleKey s.term ⟨s.env hw, s.files, true, c⟩).Fits
  | _ => True

/-- A line whose characters can be typed, and whose echo fits in its array. -/
structure Typeable (line : List UInt8) : Prop where
  printable : ∀ ch ∈ line, 32 ≤ ch ∧ ch < 127
  fits : line.length ≤ 113

/-- The prompt with a line behind it. -/
def promptLine (line : List UInt8) : List UInt8 := str "root@onken:/$ " ++ line

/-- What a session shows: each line behind its prompt, and what its command prints. -/
def session (m : FileMap) : List (List UInt8) → List Command → List (List UInt8)
  | line :: lines, c :: cs =>
      ([promptLine line] ++ (m.exec c).2).map (·.take 127) ++ session (m.exec c).1 lines cs
  | _, _ => []

section
variable {s s' s'' : Shell} {m m' : FileMap} {out out' shown : List (List UInt8)}
  {line : List UInt8} {t : Terminal} {c : Command} {os : Os}

/-! ## The history -/

/-- A line comes to the end of the history, and the first one leaves a full one. -/
theorem termHistoryAdd_shown (h : t.termHistory.map HistoryLine.text = shown.rtake maxHistory)
    (msg : List UInt8) (color : BitVec 32) :
    (termHistoryAdd t msg color).termHistory.map HistoryLine.text =
      (shown ++ [(cstr msg).take 127]).rtake maxHistory := by
  have hlen : t.termHistory.length = (shown.rtake maxHistory).length := by
    rw [← h, List.length_map]
  rw [rtake_append_singleton shown _ (by decide), ← hlen]
  unfold termHistoryAdd
  dsimp only
  split
  · rw [List.map_append, h]
    rfl
  · rw [List.map_append, List.map_tail, h]
    rfl

/-- Printed lines are shown one after the other: the history ends with them, each cut to 127
characters, and keeps the last forty. -/
theorem Prints.history {es : List Effect} (h : Prints s s' es out)
    (hshown : s.term.termHistory.map HistoryLine.text = shown.rtake maxHistory) :
    s'.term.termHistory.map HistoryLine.text =
        (shown ++ out.map (·.take 127)).rtake maxHistory ∧
      s'.term.currentDir = s.term.currentDir := by
  rw [h.term, ← h.lines]
  clear h
  generalize s.term = t at *
  induction es generalizing t shown with
  | nil => exact ⟨by simpa [printedLines] using hshown, rfl⟩
  | cons e es ih =>
      cases e with
      | print msg color =>
          have hnext := ih _ (termHistoryAdd_shown hshown msg color)
          refine ⟨?_, hnext.2⟩
          rw [List.foldl_cons]
          refine hnext.1.trans ?_
          simp [printedLines]
      | sprintf | launch | destroyTask => exact ih t hshown

/-! ## Enter -/

/-- Two commands, one after the other, print what the one and then the other prints. -/
theorem Runs.trans (h : Runs s s' (m, out)) (h' : Runs s' s'' (m', out')) :
    Runs s s'' (m', out ++ out') := by
  obtain ⟨es, hes⟩ := h.prints
  obtain ⟨es', hes'⟩ := h'.prints
  exact ⟨h'.holds, h'.closed.trans h.closed, es ++ es', hes.append hes'⟩

/-- `exec_command` reads its line as a string: it copies it up to the NUL first. -/
theorem execCommand_cstr (env : Env) {cmd : List UInt8} (hcmd : strlen cmd ≤ 127) (s : Shell) :
    execCommand env cmd s = execCommand env (cstr cmd) s := by
  have hcmd' : strlen (cstr cmd) ≤ 127 := by
    rwa [strlen, cstr_of_zero_not_mem (zero_not_mem_cstr cmd)]
  unfold execCommand
  dsimp only
  rw [strtok_temp hcmd, strtok_temp hcmd', strtok_cstr]

/-- The line is shown behind its prompt, in the root directory. -/
theorem echoLine_runs (hline : s.term.EditsLine line) (hroot : cstr s.term.currentDir = str "/")
    (h : Holds s.files m) : Runs s (echoLine s) (m, [promptLine line]) := by
  have hdir : convStr ⟨0, false, false⟩ s.term.currentDir = str "/" :=
    (convStr_plain s.term.currentDir).trans hroot
  have hcmd : convStr ⟨0, false, false⟩ s.term.cmdBuf = line :=
    (convStr_plain s.term.cmdBuf).trans hline.cstr_buf
  have htext : xsprintf (str "root@onken:%s$ %s") [.str s.term.currentDir, .str s.term.cmdBuf] =
      some (promptLine line) := by
    calc xsprintf (str "root@onken:%s$ %s") [.str s.term.currentDir, .str s.term.cmdBuf]
        = some (str "root@onken:" ++ (convStr ⟨0, false, false⟩ s.term.currentDir ++ (str "$ " ++
            (convStr ⟨0, false, false⟩ s.term.cmdBuf ++ [])))) := rfl
      _ = some (promptLine line) := by
        rw [hdir, hcmd, List.append_nil]
        rfl
  exact (Runs.refl h).printf 128 0x888888 htext
    (List.not_mem_append (by decide) hline.zero_not_mem)

/-- The commands leave room for what they print: the word is one of the commands, and a name that
`touch` creates fits in a slot. -/
theorem ReadsAs.commandFits (hline : ReadsAs line c) (env : Env) (files : Files) :
    CommandFits env files line := by
  obtain ⟨-, hzero, hcommand, hshort⟩ := hline
  obtain ⟨mk, hmk, rfl⟩ := Option.map_eq_some_iff.1 hcommand
  obtain ⟨rest, hrest, hstrtok⟩ := strtok_line (show (some line).getD [] = line from rfl) hzero
  obtain ⟨rest', -, hstrtok'⟩ := strtok_line hrest (zero_not_mem_behind hzero)
  unfold CommandFits
  rw [hstrtok]
  by_cases hword : firstWord line = []
  · rw [if_pos hword]
    trivial
  · rw [if_neg hword]
    obtain ⟨before, after, htable, -⟩ := List.lookup_eq_some_iff.1 hmk
    have hmem : (firstWord line, mk) ∈ commandTable := by
      rw [htable]
      simp
    obtain ⟨b, hb, htouch⟩ : ∃ b, builtinOf (firstWord line) = some b ∧
        (b = .touch → mk = withName "Usage: touch <filename>" .touch) := by
      simp only [commandTable, List.mem_cons, List.not_mem_nil, or_false, Prod.mk.injEq] at hmem
      rcases hmem with ⟨hw, rfl⟩ | ⟨hw, rfl⟩ | ⟨hw, rfl⟩ | ⟨hw, rfl⟩ | ⟨hw, rfl⟩ | ⟨hw, rfl⟩ |
        ⟨hw, rfl⟩ | ⟨hw, rfl⟩ | ⟨hw, rfl⟩
      · exact ⟨.cat, by rw [hw]; rfl, by rintro ⟨⟩⟩
      · exact ⟨.touch, by rw [hw]; rfl, fun _ => rfl⟩
      · exact ⟨.rm, by rw [hw]; rfl, by rintro ⟨⟩⟩
      · exact ⟨.echo, by rw [hw]; rfl, by rintro ⟨⟩⟩
      · exact ⟨.write, by rw [hw]; rfl, by rintro ⟨⟩⟩
      · exact ⟨.wc, by rw [hw]; rfl, by rintro ⟨⟩⟩
      · exact ⟨.cp, by rw [hw]; rfl, by rintro ⟨⟩⟩
      · exact ⟨.stat, by rw [hw]; rfl, by rintro ⟨⟩⟩
      · exact absurd hw hword
    simp only [appToLaunch_of_builtin env.registry hb, hb]
    -- `touch` is the only command whose name has to be short
    rintro rfl fname hfname
    rw [htouch rfl] at hshort
    rw [hstrtok'] at hfname
    split at hfname
    · cases hfname
    · next hname =>
        rw [withName, if_neg hname] at hshort
        cases hfname
        exact .inl ((strlen_le_length _).trans ((hshort _ rfl).trans (by omega)))

/-- Enter runs the command of the line, shows the line and what it prints, and starts a new one. -/
theorem AtPrompt.enter (h : AtPrompt os line m shown) (hline : ReadsAs line c) (hw : Hardware)
    (ctrl : Bool) :
    AtPrompt (osStep os (.key hw ctrl 10)) [] (m.exec c).1
      (shown ++ ([promptLine line] ++ (m.exec c).2).map (·.take 127)) := by
  obtain ⟨a, w, hactive, htitle⟩ := h.active
  have happ : Os.appFindByTitle shellRegistry.entries (os.titleText w.title) =
      some ⟨str "terminal", str "Onken Terminal", str "Command Shell"⟩ := by
    rw [htitle]
    exact appFindByTitle_terminal
  let s₀ : Shell := ⟨os.term, os.files, false, []⟩
  have hecho : Runs s₀ (echoLine s₀) (m, [promptLine line]) := echoLine_runs h.line h.root h.holds
  have hedits : (echoLine s₀).term.EditsLine line := echoLine_line h.line
  have hexec : Runs (echoLine s₀) (execCommand (os.env hw) (echoLine s₀).term.cmdBuf (echoLine s₀))
      (m.exec c) := by
    have hshort : strlen (echoLine s₀).term.cmdBuf ≤ 127 := by
      rw [hedits.strlen_buf, hedits.length]
      exact hedits.short
    rw [execCommand_cstr (os.env hw) hshort, hedits.cstr_buf]
    exact execCommand_runs (os.env hw) hecho.holds hline
  generalize hs₂ : execCommand (os.env hw) (echoLine s₀).term.cmdBuf (echoLine s₀) = s₂ at hexec
  obtain ⟨hholds, hclosed, es, hes⟩ := hecho.trans hexec
  obtain ⟨hhistory, hdir⟩ := hes.history h.history
  have hkey : terminalHandleKey (os.env hw) true 10 s₀ =
      { s₂ with term := { s₂.term with cmdLen := 0, cmdBuf := List.replicate maxCmd 0 } } := by
    have hten : (10 : UInt8) = 10 ∨ (10 : UInt8) = 13 := .inl rfl
    have henter : terminalHandleKey (os.env hw) true 10 s₀ = handleEnter (os.env hw) s₀ := by
      unfold terminalHandleKey
      rw [if_neg (by simp), if_pos hten]
    have hterm : ({ s₀ with term := terminate s₀.term } : Shell) = s₀ := by
      rw [show terminate s₀.term = s₀.term from h.line.terminate]
    rw [henter, handleEnter, hterm]
    dsimp only
    rw [hs₂]
  have hstep : osStep os (.key hw ctrl 10) =
      { os with
        term := { s₂.term with cmdLen := 0, cmdBuf := List.replicate maxCmd 0 }
        files := s₂.files } := by
    change os.dispatchKey hw ctrl 10 = _
    rw [dispatchKey_eq hw (by decide) hactive happ]
    change os.terminalKey hw 10 = _
    have hacts : s₂.effects.filter Effect.acts = [] := by
      rw [hes.effects]
      exact hes.acts
    have hopen : s₂.closed = false := hclosed
    unfold Os.terminalKey
    rw [hkey]
    dsimp only
    rw [foldl_effect_acts, hacts, hopen]
    rfl
  rw [hstep]
  exact ⟨⟨a, w, hactive, htitle⟩, editsLine_nil s₂.term, by rw [← h.root, ← hdir], hholds, hhistory⟩

/-- Enter prints into its arrays: the echo of a line of at most 113 characters fits, and so do the
lines of the command. -/
theorem AtPrompt.enter_room (h : AtPrompt os line m shown) (hline : ReadsAs line c)
    (hfits : line.length ≤ 113) (hw : Hardware) (ctrl : Bool) :
    KeyRoom os (.key hw ctrl 10) := by
  refine (handleKey_fits_iff h.line _).2 fun _ => ?_
  rw [if_pos (.inl rfl)]
  dsimp only
  rw [h.line.cstr_buf]
  have hdir : strlen os.term.currentDir = 1 := congrArg List.length h.root
  have hlen : os.term.cmdLen = line.length := h.line.length
  exact ⟨by omega, hline.commandFits _ _⟩

/-- A character goes to the line: the key is dispatched to the terminal, which stores it and prints
nothing. -/
theorem AtPrompt.typed (h : AtPrompt os line m shown) {ch : UInt8} (hch : 32 ≤ ch ∧ ch < 127)
    (hlen : line.length < 127) (hw : Hardware) (ctrl : Bool) :
    AtPrompt (osStep os (.key hw ctrl ch)) (line ++ [ch]) m shown := by
  obtain ⟨a, w, hactive, htitle⟩ := h.active
  have hch0 : ch ≠ 0 := by
    rintro rfl
    exact absurd hch.1 (by decide)
  have happ : Os.appFindByTitle shellRegistry.entries (os.titleText w.title) =
      some ⟨str "terminal", str "Onken Terminal", str "Command Shell"⟩ := by
    rw [htitle]
    exact appFindByTitle_terminal
  have hstep : osStep os (.key hw ctrl ch) = { os with term := typeChar os.term ch } := by
    change os.dispatchKey hw ctrl ch = _
    rw [dispatchKey_eq hw hch0 hactive happ]
    exact terminalKey_char hw hch
  have hline := h.line.typeChar hch0
  rw [if_pos hlen] at hline
  have hhistory : (typeChar os.term ch).termHistory = os.term.termHistory := by
    unfold typeChar
    split <;> rfl
  rw [hstep]
  exact ⟨⟨a, w, hactive, htitle⟩, hline, by rw [← h.root, ← typeChar_currentDir os.term ch],
    h.holds, by rw [← h.history, ← hhistory]⟩

/-- A character that is added to the line prints nothing. -/
theorem AtPrompt.typed_room (h : AtPrompt os line m shown) {ch : UInt8}
    (hch : ch = 0 ∨ 32 ≤ ch ∧ ch < 127) (hw : Hardware) (ctrl : Bool) :
    KeyRoom os (.key hw ctrl ch) := by
  refine (handleKey_fits_iff h.line _).2 fun _ => ?_
  have hne : ∀ d : UInt8, 0 < d → d < 32 → ch ≠ d := by
    rintro d hpos hlt rfl
    rcases hch with rfl | ⟨hle, -⟩
    · exact absurd hpos (by decide)
    · exact absurd hle (UInt8.not_le.2 hlt)
  rw [if_neg (fun h => h.elim (hne 10 (by decide) (by decide)) (hne 13 (by decide) (by decide))),
    if_neg (hne 9 (by decide) (by decide))]
  trivial

/-! ## Programs -/

/-- A key that is handed on, or a tick. -/
def OsEvent.Typed : OsEvent → Prop
  | .key .. | .tick => True
  | _ => False

/-- The character of a key, unless it is zero. -/
def OsEvent.char : OsEvent → Option UInt8
  | .key _ _ c => nonZero c
  | _ => none

/-- What hands on no character changes nothing at the prompt: a tick, or a poll that finds no key.
-/
theorem AtPrompt.silent (h : AtPrompt os line m shown) {e : OsEvent} (he : e.Typed)
    (hchar : e.char = none) : AtPrompt (osStep os e) line m shown ∧ KeyRoom os e := by
  cases e with
  | key hw ctrl c =>
      have hzero : c = 0 := nonZero_eq_none.1 hchar
      subst hzero
      exact ⟨h, h.typed_room (.inl rfl) hw ctrl⟩
  | tick => exact ⟨⟨h.active, h.line, h.root, h.holds, h.history⟩, trivial⟩
  | launch | gui => exact he.elim

/-- Events that hand no character on change neither the line nor what is shown, and print nothing.
By induction from a single one. -/
theorem AtPrompt.silents (h : AtPrompt os line m shown) {log : List OsEvent}
    (hlog : ∀ e ∈ log, e.Typed) (hchars : ∀ e ∈ log, e.char = none) :
    AtPrompt (run osStep os log) line m shown ∧ RunOk osStep KeyRoom os log := by
  induction log generalizing os with
  | nil => exact ⟨h, trivial⟩
  | cons e log ih =>
      obtain ⟨hnext, hroom⟩ :=
        h.silent (hlog e List.mem_cons_self) (hchars e List.mem_cons_self)
      obtain ⟨hrest, hrooms⟩ := ih hnext (fun e' he' => hlog e' (List.mem_cons_of_mem e he'))
        fun e' he' => hchars e' (List.mem_cons_of_mem e he')
      exact ⟨hrest, hroom, hrooms⟩

/-- The next character that is handed on, with what comes before and after it. -/
theorem exists_key {log : List OsEvent} {ch : UInt8} {chars : List UInt8}
    (hchars : log.filterMap OsEvent.char = ch :: chars) :
    ∃ before hw ctrl after, log = before ++ .key hw ctrl ch :: after ∧
      (∀ e ∈ before, e.char = none) ∧ after.filterMap OsEvent.char = chars := by
  obtain ⟨before, e, after, rfl, hbefore, he, hafter⟩ := List.filterMap_eq_cons_iff.1 hchars
  cases e with
  | key hw ctrl c =>
      have hc : c = ch := by
        change nonZero c = some ch at he
        unfold nonZero at he
        rcases eq_or_ne c 0 with h0 | h0
        · rw [if_pos h0] at he
          cases he
        · rw [if_neg h0] at he
          exact Option.some.inj he
      subst hc
      exact ⟨before, hw, ctrl, after, rfl, hbefore, hafter⟩
  | launch | gui | tick => cases he

/-- The characters of a line, as they are handed on, with ticks and empty polls between them: the
line has grown by them. By induction on the characters. -/
theorem AtPrompt.typedLine (h : AtPrompt os line m shown) {text chars : List UInt8}
    {log : List OsEvent} (hlog : ∀ e ∈ log, e.Typed)
    (hchars : log.filterMap OsEvent.char = text ++ chars)
    (htext : ∀ ch ∈ text, 32 ≤ ch ∧ ch < 127) (hlen : line.length + text.length ≤ 127) :
    ∃ typed rest, log = typed ++ rest ∧ rest.filterMap OsEvent.char = chars ∧
      AtPrompt (run osStep os typed) (line ++ text) m shown ∧ RunOk osStep KeyRoom os typed := by
  induction text generalizing os line log with
  | nil => exact ⟨[], log, rfl, hchars, by simpa using h, trivial⟩
  | cons ch text ih =>
      obtain ⟨before, hw, ctrl, after, rfl, hbefore, hafter⟩ := exists_key hchars
      rw [List.length_cons] at hlen
      have hch := htext ch List.mem_cons_self
      obtain ⟨hsilent, hrooms⟩ :=
        h.silents (fun e he => hlog e (List.mem_append_left _ he)) hbefore
      obtain ⟨typed, rest, rfl, hrest, hline, hrooms'⟩ := ih
        (hsilent.typed hch (by omega) hw ctrl)
        (fun e he => hlog e (List.mem_append_right _ (List.mem_cons_of_mem _ he))) hafter
        (fun d hd => htext d (List.mem_cons_of_mem ch hd))
        (by rw [List.length_append, List.length_singleton]; omega)
      refine ⟨before ++ .key hw ctrl ch :: typed, rest, by simp, hrest, ?_, ?_⟩
      · rw [List.append_assoc] at hline
        rw [run_append]
        exact hline
      · exact (RunOk_append _ _).2 ⟨hrooms, hsilent.typed_room (.inr hch) hw ctrl, hrooms'⟩

/-- A program is typed as its lines, each one ended with Enter. -/
def programText (lines : List (List UInt8)) : List UInt8 := lines.flatMap fun line => line ++ [10]

/-- The lines of a program, as they are handed on: after each Enter the terminal is at its prompt
again, with the files and the output of the commands so far. By induction on the lines. -/
theorem AtPrompt.typedProgram {lines : List (List UInt8)} {cs : List Command}
    (hlines : List.Forall₂ ReadsAs lines cs) (htypeable : ∀ line ∈ lines, Typeable line) :
    ∀ {os : Os} {m : FileMap} {shown : List (List UInt8)} {log : List OsEvent},
      AtPrompt os [] m shown → (∀ e ∈ log, e.Typed) →
      log.filterMap OsEvent.char = programText lines →
      AtPrompt (run osStep os log) [] (Interp.run FileMap.exec m cs).1
        (shown ++ session m lines cs) ∧ RunOk osStep KeyRoom os log := by
  induction hlines with
  | nil =>
      intro os m shown log h hlog hchars
      have hsession : session m [] [] = [] := rfl
      rw [hsession, List.append_nil]
      exact h.silents hlog (List.filterMap_eq_nil_iff.1 hchars)
  | cons hread hreads ih =>
      rename_i line c lines cs
      intro os m shown log h hlog hchars
      have hline := htypeable line List.mem_cons_self
      have hshort := hline.fits
      have hprogram : programText (line :: lines) = line ++ (10 :: programText lines) := by
        rw [programText, List.flatMap_cons, List.append_assoc, programText]
        rfl
      rw [hprogram] at hchars
      obtain ⟨typed, rest, rfl, hrest, htyped, hrooms⟩ := h.typedLine hlog hchars hline.printable
        (by rw [List.length_nil]; omega)
      obtain ⟨before, hw, ctrl, after, rfl, hbefore, hafter⟩ := exists_key hrest
      obtain ⟨hsilent, hrooms'⟩ := htyped.silents
        (fun e he => hlog e (List.mem_append_right _ (List.mem_append_left _ he))) hbefore
      obtain ⟨hnext, hrooms''⟩ := ih (fun l hl => htypeable l (List.mem_cons_of_mem line hl))
        (hsilent.enter hread hw ctrl)
        (fun e he => hlog e
          (List.mem_append_right _ (List.mem_append_right _ (List.mem_cons_of_mem _ he)))) hafter
      refine ⟨?_, (RunOk_append _ _).2 ⟨hrooms, (RunOk_append _ _).2
        ⟨hrooms', hsilent.enter_room hread hshort hw ctrl, hrooms''⟩⟩⟩
      rw [run_append, run_append, session, ← List.append_assoc]
      exact hnext

end

/-! ## The keyboard and the main loop -/

/-- Every call of `xsprintf` that an event makes in the terminal stays in its array. -/
def ConsoleRoom (s : Console) (e : ConsoleEvent) : Prop :=
  RunOk osStep KeyRoom s.os (s.osEvents e)

/-- The console hands on only keys and ticks. -/
theorem osEvents_typed (s : Console) (e : ConsoleEvent) : ∀ e' ∈ s.osEvents e, e'.Typed := by
  intro e' he'
  cases e with
  | irq1 => cases he'
  | poll hw =>
      obtain ⟨k, -, rfl⟩ := Option.map_eq_some_iff.1 (Option.mem_toList.1 he')
      trivial
  | tick =>
      cases List.mem_singleton.1 he'
      trivial

/-- The characters an event hands on are what `ps2_get_last_key` returns, so none is lost between
the two. -/
theorem osEvents_chars (s : Console) (e : ConsoleEvent) :
    (consoleStep s e).keys.returned.filterMap nonZero =
      s.keys.returned.filterMap nonZero ++ (s.osEvents e).filterMap OsEvent.char := by
  cases e with
  | irq1 | tick => exact (List.append_nil _).symm
  | poll hw =>
      change (kbdStep s.keys .poll).returned.filterMap nonZero = _
      unfold kbdStep Console.osEvents
      cases s.keys.k with
      | none => exact (List.append_nil _).symm
      | some k =>
          dsimp only
          rw [List.filterMap_append]
          rfl

/-- The keyboard does not depend on the rest of the system: what it does in a run is what it does on
its own events. -/
theorem run_keys (es : List ConsoleEvent) (s : Console) :
    (run consoleStep s es).keys = run kbdStep s.keys (es.filterMap ConsoleEvent.kbd) := by
  induction es generalizing s with
  | nil => rfl
  | cons e es ih =>
      rw [run_cons, ih]
      cases e <;> rfl

/-- The system is handed the characters that the calls return. -/
theorem expand_osEvents (es : List ConsoleEvent) (s : Console) :
    (∀ e ∈ expand consoleStep Console.osEvents s es, e.Typed) ∧
      (run consoleStep s es).keys.returned.filterMap nonZero =
        s.keys.returned.filterMap nonZero ++
          (expand consoleStep Console.osEvents s es).filterMap OsEvent.char := by
  induction es generalizing s with
  | nil => exact ⟨nofun, (List.append_nil _).symm⟩
  | cons e es ih =>
      obtain ⟨htyped, hreturned⟩ := ih (consoleStep s e)
      refine ⟨fun e' he' => ?_, ?_⟩
      · exact (List.mem_append.1 he').elim (osEvents_typed s e e') (htyped e')
      · rw [run_cons, hreturned, osEvents_chars, expand, List.filterMap_append, List.append_assoc]

/-- In a run in which no interrupt destroys a character, the main loop gets what is typed. -/
theorem returned_of_safe {es : List KbdEvent} (hsafe : RunOk kbdStep KbdSafe .start es)
    (hdrained : (run kbdStep .start es).Drained) :
    (run kbdStep .start es).returned.filterMap nonZero = typedChars .static (scancodes es) := by
  have hbox : run step empty (expand kbdStep boxEvents .start es) = (run kbdStep .start es).box :=
    run_expand run_boxEvents es .start
  have htyped : (run kbdStep .start es).typed = typedChars .static (scancodes es) :=
    run_typed_eq es .start
  have hpending : pending (run step empty (expand kbdStep boxEvents .start es)) = none := by
    rw [hbox]
    unfold pending KeySystem.box
    rw [hdrained.1, hdrained.2]
    rfl
  have hall := (taken_eq_sent_iff _ hpending).2
    ((RunOk_expand run_boxEvents runOk_boxEvents es .start).2 hsafe)
  rw [hbox] at hall
  rw [← htyped]
  exact hall

/-- The text of a program can be typed if its lines can. -/
theorem programText_typable {lines : List (List UInt8)} (h : ∀ line ∈ lines, Typeable line) :
    ∀ ch ∈ programText lines, ch ∈ typable := by
  intro ch hch
  obtain ⟨line, hline, hch⟩ := List.mem_flatMap.1 hch
  rcases List.mem_append.1 hch with hch | hch
  · obtain ⟨hle, hlt⟩ := (h line hline).printable ch hch
    have hmem := typable_printable ch.toNat (UInt8.lt_iff_toNat_lt.1 hlt)
      (UInt8.le_iff_toNat_le.1 hle)
    rwa [Nat.toUInt8, UInt8.ofNat_toNat] at hmem
  · cases List.mem_singleton.1 hch
    decide

/-- A program of lines that are commands is typed at the prompt, and no interrupt destroys a
character of it. Each line is short enough for its echo (`Typeable`): a longer one leaves the array
that the echo is printed to. Once the main loop has got the last character, the files are what the
commands make of them, the terminal shows the newest lines of the session, and nothing was printed
over the end of its array. -/
theorem typed_program_runs {os : Os} {m : FileMap} {shown lines : List (List UInt8)}
    {cs : List Command} (h : AtPrompt os [] m shown) (hlines : List.Forall₂ ReadsAs lines cs)
    (htypeable : ∀ line ∈ lines, Typeable line) (es : List ConsoleEvent)
    (hcodes : scancodes (es.filterMap ConsoleEvent.kbd) = typing false (programText lines))
    (hsafe : RunOk kbdStep KbdSafe .start (es.filterMap ConsoleEvent.kbd))
    (hdrained : (run consoleStep ⟨.start, os⟩ es).keys.Drained) :
    AtPrompt (run consoleStep ⟨.start, os⟩ es).os [] (Interp.run FileMap.exec m cs).1
        (shown ++ session m lines cs) ∧
      RunOk consoleStep ConsoleRoom ⟨.start, os⟩ es := by
  obtain ⟨htyped, hreturned⟩ := expand_osEvents es ⟨.start, os⟩
  have hchars : (expand consoleStep Console.osEvents ⟨.start, os⟩ es).filterMap OsEvent.char =
      programText lines := by
    rw [run_keys] at hreturned hdrained
    have hall := returned_of_safe hsafe hdrained
    have htyping : typedChars .static (typing false (programText lines)) = programText lines :=
      (typedChars_typing (s := .static) rfl rfl (programText_typable htypeable)).1
    rw [hcodes, htyping, hreturned] at hall
    exact hall
  obtain ⟨hprompt, hroom⟩ := h.typedProgram hlines htypeable htyped hchars
  have hstep : ∀ s e, run osStep (Console.os s) (s.osEvents e) = (consoleStep s e).os :=
    fun _ _ => rfl
  rw [run_expand hstep es ⟨.start, os⟩] at hprompt
  exact ⟨hprompt, (RunOk_expand hstep (fun _ _ => Iff.rfl) es ⟨.start, os⟩).1 hroom⟩

/-! ## From the boot -/

/-- A main loop that calls `ps2_get_last_key` after every interrupt. -/
def polled (hw : Hardware) (codes : List (BitVec 8 × BitVec 8)) : List ConsoleEvent :=
  codes.flatMap fun code => [.irq1 code.1 code.2, .poll hw, .poll hw]

/-- With such a main loop each interrupt is followed by one call of `ps2_get_last_key`, which reads
and clears. -/
theorem kbd_polled (hw : Hardware) (codes : List (BitVec 8 × BitVec 8)) :
    (polled hw codes).filterMap ConsoleEvent.kbd =
        codes.flatMap (fun code => [.irq1 code.1 code.2, .poll, .poll]) ∧
      scancodes ((polled hw codes).filterMap ConsoleEvent.kbd) = codes := by
  induction codes with
  | nil => exact ⟨rfl, rfl⟩
  | cons code codes ih =>
      obtain ⟨hkbd, hcodes⟩ := ih
      have hcons : (polled hw (code :: codes)).filterMap ConsoleEvent.kbd =
          .irq1 code.1 code.2 :: .poll :: .poll ::
            (polled hw codes).filterMap ConsoleEvent.kbd := rfl
      rw [hcons]
      refine ⟨?_, ?_⟩
      · rw [hkbd]
        rfl
      · exact congrArg (code :: ·) hcodes

/-- Such a main loop gets every character: each is read and cleared before the next interrupt. -/
theorem polled_safe (hw : Hardware) (codes : List (BitVec 8 × BitVec 8)) {s : KeySystem}
    (h : s.Drained) : RunOk kbdStep KbdSafe s ((polled hw codes).filterMap ConsoleEvent.kbd) ∧
      (run kbdStep s ((polled hw codes).filterMap ConsoleEvent.kbd)).Drained := by
  rw [(kbd_polled hw codes).1]
  induction codes generalizing s with
  | nil => exact ⟨trivial, h⟩
  | cons code codes ih =>
      have hsafe : KbdSafe s (.irq1 code.1 code.2) := by
        intro c _
        rw [h.1]
        exact h.2
      have hread : kbdStep (kbdStep s (.irq1 code.1 code.2)) .poll =
          { kbdStep s (.irq1 code.1 code.2) with
            k := some (irq1Handler s.kbd code.1 code.2).lastKey } := by
        simp only [kbdStep, h.1]
      have hdrained : (run kbdStep s [.irq1 code.1 code.2, .poll, .poll]).Drained := by
        rw [run_cons, run_cons, hread]
        exact ⟨rfl, rfl⟩
      obtain ⟨hrest, hend⟩ := ih hdrained
      exact ⟨⟨hsafe, trivial, trivial, hrest⟩, hend⟩

/-- A table whose names are distinct holds the files of some map. -/
theorem NamesUnique.holds {files : Files} (h : NamesUnique files) : ∃ m, Holds files m := by
  obtain ⟨m, hm⟩ := (namesUnique_iff.1 h).exists_refines
  refine ⟨⟨m, hm.card_le, fun {name d} hd => ?_⟩, hm⟩
  obtain ⟨i, hi⟩ := (hm.lookup_iff name d).1 hd
  have hbytes : (files i).bytes = d := congrArg Prod.snd (fileView_eq_some.1 hi).2
  rw [← hbytes, (files i).length_bytes]
  exact (files i).size_le

/-- The history of the terminal keeps at most 40 lines. -/
theorem length_historyAdd {lines : List HistoryLine} (h : lines.length ≤ 40) (msg : List UInt8)
    (color : BitVec 32) : (historyAdd lines msg color).length ≤ 40 := by
  unfold historyAdd
  split
  · next hroom =>
      have hroom : lines.length < 40 := hroom
      rw [List.length_append, List.length_singleton]
      omega
  · next hroom =>
      have hroom : ¬ lines.length < 40 := hroom
      rw [List.length_append, List.length_tail, List.length_singleton]
      omega

/-- Printing leaves the directory. -/
theorem say_currentDir (s : Shell) (msg : String) (color : BitVec 32) :
    (s.say msg color).term.currentDir = s.term.currentDir := rfl

/-- So does printing through `xsprintf`. -/
theorem printf_currentDir (s : Shell) (size : Nat) (color : BitVec 32) (format : String)
    (args : List Arg) : (s.printf size color format args).term.currentDir = s.term.currentDir := rfl

/-- The terminal of the boot is at its prompt: its window is active, its line empty, and the table
holds the first files. -/
theorem boot_atPrompt (hw : Hardware) (logoPng : List UInt8) :
    ∃ m shown, AtPrompt (Os.boot hw logoPng) [] m shown := by
  obtain ⟨m, hm⟩ := (namesUnique_vfsInit logoPng).holds
  refine ⟨m, (Os.boot hw logoPng).term.termHistory.map HistoryLine.text,
    ⟨_, _, rfl, rfl⟩, boot_line hw logoPng, ?_, ?_, ?_⟩
  · unfold Os.boot Os.terminalLaunch
    simp only [terminalLaunch, showFastfetch, say_currentDir, printf_currentDir]
    rfl
  · rw [boot_files]
    exact hm
  · have hlen : (Os.boot hw logoPng).term.termHistory.length ≤ 40 := by
      unfold Os.boot Os.terminalLaunch
      simp only [terminalLaunch, showFastfetch, say_history, printf_history]
      repeat refine length_historyAdd ?_ _ _
      exact Nat.zero_le 40
    rw [List.rtake, List.length_map]
    change _ = List.drop (_ - 40) _
    rw [Nat.sub_eq_zero_of_le hlen]
    rfl

/-- After the boot, a file is written and shown, as typed on the keys by a main loop that polls
after every interrupt. -/
theorem typed_program_runs_boot : ∃ m shown,
    AtPrompt
      (run consoleStep ⟨.start, Os.boot Env.zero.hw []⟩ (polled Env.zero.hw
        (typing false (programText [str "write a 2 Words", str "cat a"])))).os []
      (Interp.run FileMap.exec m [.write (str "a") (str "2 Words"), .cat (str "a")]).1
      (shown ++ session m [str "write a 2 Words", str "cat a"]
        [.write (str "a") (str "2 Words"), .cat (str "a")]) := by
  obtain ⟨m, shown, h⟩ := boot_atPrompt Env.zero.hw []
  obtain ⟨hsafe, hdrained⟩ := polled_safe Env.zero.hw
    (typing false (programText [str "write a 2 Words", str "cat a"])) (s := .start) ⟨rfl, rfl⟩
  rw [← run_keys _ ⟨.start, Os.boot Env.zero.hw []⟩] at hdrained
  have hshort : ∀ c : Command, (∀ name ∈ c.stores, name.length ≤ 31) → c.Short := fun _ h => h
  refine ⟨m, shown, (typed_program_runs h (.cons ⟨by decide, by decide, by decide, ?_⟩
    (.cons ⟨by decide, by decide, by decide, ?_⟩ .nil)) ?_ _ (kbd_polled _ _).2 hsafe hdrained).1⟩
  · exact hshort _ (by decide)
  · exact hshort _ (by decide)
  · intro line hline
    simp only [List.mem_cons, List.not_mem_nil, or_false] at hline
    rcases hline with rfl | rfl
    · exact ⟨List.all_iff_forall_prop.1 (by decide), by decide⟩
    · exact ⟨List.all_iff_forall_prop.1 (by decide), by decide⟩

end OnkenOS
