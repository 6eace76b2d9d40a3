import OnkenOS.Kernel.App
import OnkenOS.Kernel.Format
import OnkenOS.Kernel.Fs
import OnkenOS.Drivers.Hardware

/-!
# The terminal

`apps/terminal/terminal.c`: the line editor of `terminal_handle_key` and the commands of
`exec_command`. The functions pass the static variables along with the RAM disk and with the
list of what they have done so far (`Shell`): each call of `xsprintf` with the size of its
buffer, each line handed to `term_history_add`, each launch.

A local `char` array is the string in it. Whether `xsprintf` stays in its array is the subject
of `OnkenOS.Apps.TerminalOutput`.
-/

namespace OnkenOS

/-- `MAX_CMD`. -/
abbrev maxCmd : Nat := 128

/-- `MAX_HISTORY`. -/
abbrev maxHistory : Nat := 40

/-- `history_line_t`, with the string in `text`. -/
structure HistoryLine where
  text : List UInt8
  color : BitVec 32

/-- The static variables of `terminal.c`; `termHistory` is its first `history_count` lines. -/
structure Terminal where
  cmdBuf : List UInt8
  cmdLen : Nat
  currentDir : List UInt8
  termHistory : List HistoryLine
  termScrollOffset : Int

/-- What the code does that others see. -/
inductive Effect where
  /-- `xsprintf` into an array of `size` bytes. -/
  | sprintf (size : Nat) (out : Option (List UInt8))
  /-- `term_history_add`, also through `print_to_shell`. -/
  | print (msg : List UInt8) (color : BitVec 32)
  /-- `app->launch(args)`. -/
  | launch (app : AppEntry) (args : Option (List UInt8))
  /-- `sys_destroy_task(pid)`. -/
  | destroyTask (pid : Nat)

/-- The state a key is handled in. -/
structure Shell where
  term : Terminal
  files : Files
  closed : Bool
  effects : List Effect

/-- What a key finds beside the terminal's own variables and the RAM disk. What an application
does when it is launched is, for the terminal, a change of the RAM disk. -/
structure Env where
  registry : Registry
  hw : Hardware
  launch : AppEntry → Option (List UInt8) → Files → Files

/-! ## Output -/

/-- `term_history_add`, on the history. -/
def termHistoryAdd (t : Terminal) (msg : List UInt8) (color : BitVec 32) : Terminal :=
  let line := ⟨(cstr msg).take 127, color⟩
  { t with
    termHistory :=
      if t.termHistory.length < maxHistory then t.termHistory ++ [line]
      else t.termHistory.tail ++ [line]
    termScrollOffset := 0 }

namespace Shell

/-- `term_history_add` and `print_to_shell`. -/
def print (s : Shell) (msg : List UInt8) (color : BitVec 32) : Shell :=
  { s with
    term := termHistoryAdd s.term msg color
    effects := s.effects ++ [.print msg color] }

/-- `print_to_shell` of a literal. -/
def say (s : Shell) (msg : String) (color : BitVec 32) : Shell := s.print (str msg) color

/-- `xsprintf(buf, format, ...)` into an array of `size` bytes. -/
def sprintf (s : Shell) (size : Nat) (format : String) (args : List Arg) :
    Shell × List UInt8 :=
  let out := xsprintf (str format) args
  ({ s with effects := s.effects ++ [.sprintf size out] }, out.getD [])

/-- `xsprintf(buf, format, ...); print_to_shell(buf, color);`. -/
def printf (s : Shell) (size : Nat) (color : BitVec 32) (format : String) (args : List Arg) :
    Shell :=
  let (s, buf) := s.sprintf size format args
  s.print buf color

end Shell

/-- `(int)v` or `(uint32_t)v` of a number. -/
def intArg (v : Nat) : Arg := .int (BitVec.ofNat 32 v)

/-- `(uint32_t)(v / 1024 / 1024)`. -/
def megabytes (v : BitVec 64) : BitVec 32 := (v / 1024 / 1024).setWidth 32

/-- The number of used slots. -/
def fileCount (files : Files) : Nat :=
  (List.range 64).countP fun i : Nat => (vfsGetByIndex files i).isSome

/-- `show_fastfetch`. -/
def showFastfetch (env : Env) (s : Shell) : Shell :=
  let mem := env.hw.memInfo
  let totalMb := megabytes mem.totalMemory
  let usedMb := megabytes mem.usedMemory
  let freeMb := totalMb - usedMb
  let d := rtcGetDatetime env.hw.rtc
  let upSec : BitVec 32 := (env.hw.uptimeMs / 1000).setWidth 32
  let s := s.say "" 0x000000
  let s := s.say "       ____        __              ____  _____" 0x50E3C2
  let s := s.say "      / __ \\____  / /_____  ____  / __ \\/ ___/" 0x50E3C2
  let s := s.say "     / / / / __ \\/ //_/ _ \\/ __ \\/ / / /\\__ \\" 0x50E3C2
  let s := s.say "    / /_/ / / / / ,< /  __/ / / / /_/ /___/ /" 0x50E3C2
  let s := s.say "    \\____/_/ /_/_/|_|\\___/_/ /_/\\____//____/" 0x50E3C2
  let s := s.say "" 0x000000
  let s := s.printf 128 0xF5A623 "  OS:         Onken OS v3.0 x86_64" []
  let s := s.printf 128 0xFFFFFF "  Kernel:     oneko-kernel 3.0.0-limine" []
  let s := s.printf 128 0xFFFFFF "  Host:       %s" [.str (cpuidGetBrandString env.hw.cpuid)]
  let s := s.printf 128 0xFFFFFF "  Uptime:     %d min %d sec"
    [.int (upSec / 60), .int (upSec % 60)]
  let s := s.printf 128 0xFFFFFF "  Shell:      oneko-sh 1.0" []
  let s := s.printf 128 0xFFFFFF "  Resolution: %dx%d @ 32bpp"
    [.int env.hw.fbWidth, .int env.hw.fbHeight]
  let s := s.printf 128 0xFFFFFF "  Memory:     %d MB / %d MB (%d MB free)"
    [.int usedMb, .int totalMb, .int freeMb]
  let s := s.printf 128 0xFFFFFF "  PCI:        %d devices detected"
    [intArg env.hw.pciDevices.length]
  let s := s.printf 128 0xFFFFFF "  VFS Files:  %d files in RAM disk" [intArg (fileCount s.files)]
  let s := s.printf 128 0xFFFFFF "  Date:       %d-%d-%d  %d:%d:%d UTC"
    [intArg d.year, intArg d.month, intArg d.day, intArg d.hour, intArg d.minute,
      intArg d.second]
  let s := s.printf 128 0xD4A017 "  Authors:    Ayham & Mason" []
  let s := s.say "" 0x000000
  s.say "  Type 'help' for available commands." 0x888888

/-! ## Commands -/

/-- `while (*s == ' ') s++;`. -/
def skipSpaces (s : List UInt8) : List UInt8 := s.dropWhile (· = 32)

/-- The memory behind a string. -/
def strBytes (s : List UInt8) : Bytes := fun i => s.getD i 0

/-- The lines of `help` before the applications. -/
def helpLines : List String :=
  ["  ls      - List VFS files", "  cat     - Show file contents", "  touch   - Create new file",
   "  rm      - Remove file", "  pci     - List PCI devices", "  date    - Show date/time",
   "  mem     - Memory info", "  ver     - OS version", "  clear   - Clear screen",
   "  fetch   - System info", "  hexdump - Hexdump file", "  echo    - Print text",
   "  write   - Write text to file", "  wc      - Count lines/words/bytes", "  cp      - Copy file",
   "  stat    - File info", "  exit    - Close terminal"]

/-- One round of the loop of `help` over the applications. -/
def helpApp (registry : Registry) (s : Shell) (i : Nat) : Shell :=
  match appGetByIndex registry i with
  | some a =>
      if strcmp a.name (str "terminal") ≠ 0 then
        s.printf 128 0xFFFFFF "  %-10s - %s" [.str a.name, .str a.description]
      else s
  | none => s

/-- `help`. -/
def cmdHelp (env : Env) (s : Shell) : Shell :=
  let s := s.say "Commands:" 0x50E3C2
  let s := helpLines.foldl (fun s line => s.say line 0xFFFFFF) s
  let s := s.say "Applications:" 0x50E3C2
  (List.range (appGetCount env.registry)).foldl (helpApp env.registry) s

/-- The colour of a file name in `ls`. -/
def lsColor (name : List UInt8) : BitVec 32 :=
  let nlen := strlen name
  if nlen ≥ 4 ∧ strcmp (name.drop (nlen - 4)) (str ".bmp") = 0 then 0xFF8800
  else if nlen ≥ 2 ∧ strcmp (name.drop (nlen - 2)) (str ".c") = 0 then 0x50E3C2
  else if nlen ≥ 4 ∧ strcmp (name.drop (nlen - 4)) (str ".txt") = 0 then 0x4A90E2
  else 0xFFFFFF

/-- One round of the loop of `ls`. -/
def lsLine (files : Files) (s : Shell) (i : Nat) : Shell :=
  match vfsGetByIndex files i with
  | some i =>
      s.printf 128 (lsColor (files i).name) "  %-16s %5d bytes"
        [.str (files i).name, intArg (files i).size]
  | none => s

/-- `ls`. -/
def cmdLs (s : Shell) : Shell :=
  let files := s.files
  let s := s.say "RAM Disk VFS:" 0xF5A623
  let s := (List.range 64).foldl (lsLine files) s
  if fileCount files = 0 then s.say "  (empty)" 0x888888 else s

/-- The loop of `cat`, with the string in `line_buf`. -/
def catLoop (f : VfsFile) : Shell × List UInt8 → List Nat → Shell × List UInt8
  | acc, [] => acc
  | (s, lineBuf), i :: is =>
      if f.data i = 10 ∨ lineBuf.length ≥ 120 then catLoop f (s.print lineBuf 0xFFFFFF, []) is
      else catLoop f (s, lineBuf ++ [f.data i]) is

/-- `cat`, of an open file. -/
def catFile (f : VfsFile) (s : Shell) : Shell :=
  let (s, lineBuf) := catLoop f (s, []) (List.range (min f.size 2048))
  if lineBuf.length > 0 then s.print lineBuf 0xFFFFFF else s

/-- `vfs_open` of a command's file, or the line that says it is missing. -/
def withFile (fname : List UInt8) (s : Shell) (body : VfsFile → Shell → Shell) : Shell :=
  match vfsOpen s.files fname with
  | none => s.say "File not found." 0xD0021B
  | some i => body (s.files i) s

/-- The file name of a command, or the line that says how to use it. -/
def withArg (usage : String) (rest : Option (List UInt8)) (s : Shell)
    (body : List UInt8 → Shell → Shell) : Shell :=
  match (strtok (str " ") rest).1 with
  | none => s.say usage 0xFFAAAA
  | some fname => body fname s

/-- `cat`. -/
def cmdCat (rest : Option (List UInt8)) (s : Shell) : Shell :=
  withArg "Usage: cat <filename>" rest s fun fname s => withFile fname s catFile

/-- `touch`. -/
def cmdTouch (rest : Option (List UInt8)) (s : Shell) : Shell :=
  withArg "Usage: touch <filename>" rest s fun fname s =>
    let (files, r) := vfsCreate s.files fname
    let s := { s with files := files }
    if r = 0 then s.printf 64 0x00FF00 "Created %s" [.str fname]
    else s.say "Failed to create file." 0xD0021B

/-- `rm`. -/
def cmdRm (rest : Option (List UInt8)) (s : Shell) : Shell :=
  withArg "Usage: rm <filename>" rest s fun fname s =>
    let (files, r) := vfsRemove s.files fname
    let s := { s with files := files }
    if r = 0 then s.printf 64 0x00FF00 "Removed %s" [.str fname]
    else s.say "File not found." 0xD0021B

/-- `pci`. -/
def cmdPci (env : Env) (s : Shell) : Shell :=
  let s := s.printf 64 0xF5A623 "PCI Devices: %d found" [intArg env.hw.pciDevices.length]
  env.hw.pciDevices.foldl (fun s d =>
    s.printf 128 0xFFFFFF "  %d:%d.%d  %x:%x  class=%x sub=%x"
      [intArg d.bus.toNat, intArg d.device.toNat, intArg d.function.toNat,
        intArg d.vendorId.toNat, intArg d.deviceId.toNat, intArg d.classCode.toNat,
        intArg d.subclass.toNat]) s

/-- `date`. -/
def cmdDate (env : Env) (s : Shell) : Shell :=
  let d := rtcGetDatetime env.hw.rtc
  s.printf 64 0xFFFFFF "%d-%d-%d %d:%d:%d UTC"
    [intArg d.year, intArg d.month, intArg d.day, intArg d.hour, intArg d.minute,
      intArg d.second]

/-- `mem`. -/
def cmdMem (env : Env) (s : Shell) : Shell :=
  let mem := env.hw.memInfo
  let s := s.printf 128 0xFFFFFF "Total: %d MB" [.int (megabytes mem.totalMemory)]
  let s := s.printf 128 0xFFFFFF "Used:  %d MB (%d allocs)"
    [.int (megabytes mem.usedMemory), .int (mem.heapAllocations.setWidth 32)]
  s.printf 128 0x00FF00 "Free:  %d MB" [.int (megabytes mem.freeMemory)]

/-- `"0123456789abcdef"[n]`. -/
def hexDigit (n : Nat) : UInt8 := (str "0123456789abcdef").getD n 0

/-- The cells of a row of `hexdump`. -/
def hexCells (f : VfsFile) (i : Nat) : List UInt8 :=
  (List.range 16).flatMap fun j =>
    (if i + j < f.size then
      [hexDigit ((f.data (i + j)).toNat / 16), hexDigit ((f.data (i + j)).toNat % 16), 32]
    else [32, 32, 32]) ++ (if j = 7 then [32] else [])

/-- The gutter of a row of `hexdump`. -/
def hexGutter (f : VfsFile) (i : Nat) : List UInt8 :=
  (List.range (min 16 (f.size - i))).map fun j =>
    if 32 ≤ f.data (i + j) ∧ f.data (i + j) ≤ 126 then f.data (i + j) else 46

/-- The rows of `hexdump` from offset `i`, at most `rows` of them. -/
def hexdumpRows (f : VfsFile) : Nat → Nat → Shell → Shell
  | 0, _, s => s
  | rows + 1, i, s =>
      if i < f.size then
        let (s, buf) := s.sprintf 128 "%08x  " [intArg i]
        let s := s.print (buf ++ hexCells f i ++ str " |" ++ hexGutter f i ++ str "|") 0xFFFFFF
        if i > 16 * 40 then s.say "... (truncated)" 0x888888
        else hexdumpRows f rows (i + 16) s
      else s

/-- `hexdump`. -/
def cmdHexdump (rest : Option (List UInt8)) (s : Shell) : Shell :=
  withArg "Usage: hexdump <file>" rest s fun fname s =>
    withFile fname s fun f s => hexdumpRows f (f.size + 1) 0 s

/-- `echo`. -/
def cmdEcho (rest : Option (List UInt8)) (s : Shell) : Shell :=
  match (strtok (str "") rest).1 with
  | none => s
  | some text => s.print (skipSpaces text) 0xFFFFFF

/-- `write`. -/
def cmdWrite (rest : Option (List UInt8)) (s : Shell) : Shell :=
  let (fname, rest) := strtok (str " ") rest
  let (text, _) := strtok (str "") rest
  match fname, text with
  | some fname, some text =>
      let text := skipSpaces text
      let files := if (vfsOpen s.files fname).isNone then (vfsCreate s.files fname).1 else s.files
      let s := { s with files := (vfsWrite files fname (strBytes text) (strlen text)).1 }
      s.say "Written." 0x00FF00
  | _, _ => s.say "Usage: write <file> <text...>" 0xFFAAAA

/-- The counters of `wc`. -/
structure WordCount where
  words : Nat
  lines : Nat
  inWord : Bool

/-- One byte of the loop of `wc`. -/
def wcStep (n : WordCount) (c : UInt8) : WordCount :=
  let n := if c = 10 then { n with lines := n.lines + 1 } else n
  if c = 32 ∨ c = 10 ∨ c = 9 ∨ c = 13 then { n with inWord := false }
  else if n.inWord then n else { n with inWord := true, words := n.words + 1 }

/-- `wc`. -/
def cmdWc (rest : Option (List UInt8)) (s : Shell) : Shell :=
  withArg "Usage: wc <file>" rest s fun fname s => withFile fname s fun f s =>
    let n := f.bytes.foldl wcStep ⟨0, 0, false⟩
    s.printf 64 0xFFFFFF "  %d lines, %d words, %d bytes"
      [intArg n.lines, intArg n.words, intArg f.size]

/-- `cp`. -/
def cmdCp (rest : Option (List UInt8)) (s : Shell) : Shell :=
  let (src, rest) := strtok (str " ") rest
  let (dst, _) := strtok (str " ") rest
  match src, dst with
  | some src, some dst =>
      match vfsOpen s.files src with
      | none => s.say "Source not found." 0xD0021B
      | some i =>
          let files := (vfsCreate s.files dst).1
          let s := { s with files := (vfsWrite files dst (files i).data (files i).size).1 }
          s.say "Copied." 0x00FF00
  | _, _ => s.say "Usage: cp <src> <dst>" 0xFFAAAA

/-- `stat`. -/
def cmdStat (rest : Option (List UInt8)) (s : Shell) : Shell :=
  withArg "Usage: stat <file>" rest s fun fname s => withFile fname s fun f s =>
    let s := s.printf 128 0xFFFFFF "File: %s" [.str f.name]
    let s := s.printf 128 0xFFFFFF "Size: %d bytes" [intArg f.size]
    s.printf 128 0xFFFFFF "Loc:  RAM Disk VFS" []

/-- `cd`. -/
def cmdCd (rest : Option (List UInt8)) (s : Shell) : Shell :=
  let arg1 := ((strtok (str " ") rest).1).getD (str "/")
  { s with term := { s.term with currentDir := strncpy s.term.currentDir arg1 63 } }

/-- `ver`. -/
def cmdVer (s : Shell) : Shell :=
  let s := s.say "Onken OS v3.0.0 (x86_64-limine)" 0xF5A623
  s.say "Built with GCC, freestanding C." 0xFFFFFF

/-- `clear`. -/
def cmdClear (s : Shell) : Shell := { s with term := { s.term with termHistory := [] } }

/-- `exit`. -/
def cmdExit (s : Shell) : Shell :=
  { s with closed := true, effects := s.effects ++ [.destroyTask 43] }

/-- The command that is not there. -/
def cmdUnknown (argv0 : List UInt8) (s : Shell) : Shell :=
  s.printf 128 0xD0021B "'%s' is not recognized. Type 'help'." [.str argv0]

/-- The commands of `exec_command`. -/
inductive Builtin where
  | help | ls | cat | touch | rm | pci | date | mem | hexdump | echo | write | wc | cp | stat
  | fetch | cd | ver | clear | exit
deriving DecidableEq

/-- The comparisons of `exec_command`, in its order. -/
def builtinNames : List (String × Builtin) :=
  [("help", .help), ("ls", .ls), ("cat", .cat), ("touch", .touch), ("rm", .rm), ("pci", .pci),
   ("date", .date), ("mem", .mem), ("hexdump", .hexdump), ("echo", .echo), ("write", .write),
   ("wc", .wc), ("cp", .cp), ("stat", .stat), ("fetch", .fetch), ("cd", .cd), ("ver", .ver),
   ("clear", .clear), ("exit", .exit)]

/-- The command that `argv0` names: the first of the `strcmp` chain that matches. -/
def builtinOf (argv0 : List UInt8) : Option Builtin :=
  (builtinNames.find? fun b => strcmp argv0 (str b.1) == 0).map Prod.snd

/-- The branches of `exec_command`; `rest` is `last_strtok`. -/
def runBuiltin (env : Env) (b : Builtin) (rest : Option (List UInt8)) (s : Shell) : Shell :=
  match b with
  | .help => cmdHelp env s
  | .ls => cmdLs s
  | .cat => cmdCat rest s
  | .touch => cmdTouch rest s
  | .rm => cmdRm rest s
  | .pci => cmdPci env s
  | .date => cmdDate env s
  | .mem => cmdMem env s
  | .hexdump => cmdHexdump rest s
  | .echo => cmdEcho rest s
  | .write => cmdWrite rest s
  | .wc => cmdWc rest s
  | .cp => cmdCp rest s
  | .stat => cmdStat rest s
  | .fetch => showFastfetch env s
  | .cd => cmdCd rest s
  | .ver => cmdVer s
  | .clear => cmdClear s
  | .exit => cmdExit s

/-- The application `exec_command` launches for `argv0`. -/
def appToLaunch (registry : Registry) (argv0 : List UInt8) : Option AppEntry :=
  (appFind registry argv0).filter fun _ => strcmp argv0 (str "terminal") ≠ 0

/-- The arguments an application is launched with: the rest of the line without leading
spaces, if anything remains. -/
def launchArgs (rest : Option (List UInt8)) : Option (List UInt8) :=
  (((strtok (str "") rest).1).map skipSpaces).filter fun args => strlen args ≠ 0

/-- The launch in `exec_command`. -/
def launchApp (env : Env) (app : AppEntry) (args : Option (List UInt8)) (s : Shell) : Shell :=
  let s : Shell :=
    { s with
      files := env.launch app args s.files
      effects := s.effects ++ [.launch app args] }
  match args with
  | some args => s.printf 128 0x00FF00 "Launched %s with args: %s" [.str app.name, .str args]
  | none => s.printf 128 0x00FF00 "Launched %s." [.str app.name]

/-- `exec_command`. -/
def execCommand (env : Env) (cmd : List UInt8) (s : Shell) : Shell :=
  let temp := (strncpy (List.replicate maxCmd 0) cmd (maxCmd - 1)).set (maxCmd - 1) 0
  match strtok (str " ") (some temp) with
  | (none, _) => s
  | (some argv0, rest) =>
      match appToLaunch env.registry argv0 with
      | some app => launchApp env app (launchArgs rest) s
      | none =>
          match builtinOf argv0 with
          | some b => runBuiltin env b rest s
          | none => cmdUnknown argv0 s

/-! ## The line editor -/

/-- The start of the current word: `word_start` after its loop, `cmd_len` before. -/
def wordStart (cmdBuf : List UInt8) : Nat → Nat
  | 0 => 0
  | n + 1 => if cmdBuf.getD n 0 ≠ 32 then wordStart cmdBuf n else n + 1

/-- The names Tab matches in the first word: the commands, then the applications. -/
def commandNames (registry : Registry) : List (List UInt8) :=
  ["help", "ls", "cat", "touch", "rm", "pci", "date", "mem", "ver", "clear", "fetch", "hexdump",
    "echo", "write", "wc", "cp", "stat", "exit", "cd"].map str ++
  (List.range (appGetCount registry)).filterMap fun i =>
    (appGetByIndex registry i).map AppEntry.name

/-- The names Tab matches in the other words: the files. -/
def fileNames (files : Files) : List (List UInt8) :=
  (List.range 64).filterMap fun i : Nat => (vfsGetByIndex files i).map fun i => (files i).name

/-- `matches`: the first 32 names that start with `prefix`. -/
def tabMatches (env : Env) (files : Files) (cmdBuf : List UInt8) (start : Nat) :
    List (List UInt8) :=
  let word := cstr (cmdBuf.drop start)
  let names := if start = 0 then commandNames env.registry else fileNames files
  (names.filter fun name => strncmp name word word.length == 0).take 32

/-- `while (*completion && cmd_len < MAX_CMD - 2) cmd_buf[cmd_len++] = *completion++;`. -/
def complete (t : Terminal) : List UInt8 → Terminal
  | [] => t
  | c :: completion =>
      if c ≠ 0 ∧ t.cmdLen < maxCmd - 2 then
        complete { t with cmdBuf := t.cmdBuf.set t.cmdLen c, cmdLen := t.cmdLen + 1 } completion
      else t

/-- `if (cmd_len < MAX_CMD - 1) cmd_buf[cmd_len++] = c;`. -/
def typeChar (t : Terminal) (c : UInt8) : Terminal :=
  if t.cmdLen < maxCmd - 1 then
    { t with cmdBuf := t.cmdBuf.set t.cmdLen c, cmdLen := t.cmdLen + 1 }
  else t

/-- The lines that show several matches: as many names on a line as fit. -/
def showMatches (s : Shell) (line : List UInt8) : List (List UInt8) → Shell
  | [] => if strlen line > 0 then s.print line 0xFFFFFF else s
  | m :: ms =>
      let (s, line) :=
        if strlen line + strlen m + 2 ≥ 127 then (s.print line 0xFFFFFF, []) else (s, line)
      showMatches s (strncat (strncat line m 127) (str "  ") 127) ms

/-- The line as it is shown after the prompt. -/
def echoLine (s : Shell) : Shell :=
  s.printf 128 0x888888 "root@onken:%s$ %s" [.str s.term.currentDir, .str s.term.cmdBuf]

/-- `cmd_buf[cmd_len] = '\0';`. -/
def terminate (t : Terminal) : Terminal := { t with cmdBuf := t.cmdBuf.set t.cmdLen 0 }

/-- The Tab key. -/
def handleTab (env : Env) (s : Shell) : Shell :=
  if s.term.cmdLen > 0 then
    let s := { s with term := terminate s.term }
    let start := wordStart s.term.cmdBuf s.term.cmdLen
    let wordLen := strlen (s.term.cmdBuf.drop start)
    match tabMatches env s.files s.term.cmdBuf start with
    | [] => s
    | [m] => { s with term := typeChar (complete s.term (m.drop wordLen)) 32 }
    | ms => showMatches (echoLine s) [] ms
  else s

/-- The Enter key. -/
def handleEnter (env : Env) (s : Shell) : Shell :=
  let s := echoLine { s with term := terminate s.term }
  let s := execCommand env s.term.cmdBuf s
  { s with term := { s.term with cmdLen := 0, cmdBuf := List.replicate maxCmd 0 } }

/-- The Backspace key. -/
def handleBackspace (t : Terminal) : Terminal :=
  if t.cmdLen > 0 then
    { t with cmdBuf := t.cmdBuf.set (t.cmdLen - 1) 0, cmdLen := t.cmdLen - 1 }
  else t

/-- `terminal_handle_key`; `active` is whether there is an active window that is not closed. -/
def terminalHandleKey (env : Env) (active : Bool) (c : UInt8) (s : Shell) : Shell :=
  if !active then s
  else if c = 10 ∨ c = 13 then handleEnter env s
  else if c = 8 then { s with term := handleBackspace s.term }
  else if c = 9 then handleTab env s
  else if 32 ≤ c ∧ c < 127 then { s with term := typeChar s.term c }
  else s

/-- `terminal_launch`, on the terminal's own variables. -/
def terminalLaunch (env : Env) (s : Shell) : Shell :=
  showFastfetch env
    { s with term := { s.term with
        termHistory := [], cmdLen := 0, cmdBuf := List.replicate maxCmd 0 } }

end OnkenOS
