import OnkenOS.Lib.Decimal
import OnkenOS.Lib.Interp
import OnkenOS.Apps.TerminalCat
import OnkenOS.Kernel.FsMap
import OnkenOS.Kernel.Strtok

/-!
# A language of commands

What the commands about files mean, on the map the RAM disk is (`FileMap`): each one changes the map
and prints lines; `commandOf` reads a command off its line.

`OnkenOS.Apps.CommandRuns` shows that `exec_command` runs this language.
-/

namespace OnkenOS

open Tokens Decimal

/-- The commands about files, and `echo`. -/
inductive Command where
  | touch (name : List UInt8)
  | rm (name : List UInt8)
  | write (name text : List UInt8)
  | cp (src dst : List UInt8)
  | cat (name : List UInt8)
  | wc (name : List UInt8)
  | stat (name : List UInt8)
  | echo (text : List UInt8)
  /-- an argument is missing -/
  | usage (msg : List UInt8)
  | nothing
deriving DecidableEq, Repr

/-! ## Lines -/

/-- Blanks are what separates words. -/
def blank (c : UInt8) : Bool := c == 32

/-- The first word of a line; it is empty if there is none. -/
def firstWord (line : List UInt8) : List UInt8 := word blank (body blank line)

/-- The command with a name as its argument. -/
def withName (usage : String) (c : List UInt8 → Command) (args : List UInt8) : Command :=
  if firstWord args = [] then .usage (str usage) else c (firstWord args)

/-- The command with two arguments, the second one read by `second`. -/
def withTwo (usage : String) (c : List UInt8 → List UInt8 → Command)
    (second : List UInt8 → List UInt8) (args : List UInt8) : Command :=
  if firstWord args = [] ∨ second (behind blank args) = [] then .usage (str usage)
  else c (firstWord args) (second (behind blank args))

/-- The commands by their names, with what each makes of its arguments. -/
def commandTable : List (List UInt8 × (List UInt8 → Command)) :=
  [(str "cat", withName "Usage: cat <filename>" .cat),
   (str "touch", withName "Usage: touch <filename>" .touch),
   (str "rm", withName "Usage: rm <filename>" .rm),
   (str "echo", fun args => if args = [] then .nothing else .echo (body blank args)),
   (str "write", withTwo "Usage: write <file> <text...>"
      (fun name text => .write name (body blank text)) id),
   (str "wc", withName "Usage: wc <file>" .wc),
   (str "cp", withTwo "Usage: cp <src> <dst>" .cp firstWord),
   (str "stat", withName "Usage: stat <file>" .stat),
   ([], fun _ => .nothing)]

/-- The command of a line, if it is one of these. -/
def commandOf (line : List UInt8) : Option Command :=
  (commandTable.lookup (firstWord line)).map fun c => c (behind blank line)

/-! ## What commands do -/

/-- Contents stored under a name, which is created if it is not there. -/
def FileMap.put (m : FileMap) (name d : List UInt8) : FileMap :=
  ((m.create name).1.write name (strBytes d) d.length).1

/-- The bytes that end a word for `wc`. -/
def white (c : UInt8) : Bool := c == 32 || c == 10 || c == 9 || c == 13

/-- What a command prints about a file. -/
def FileMap.about (m : FileMap) (name : List UInt8) (lines : List UInt8 → List (List UInt8)) :
    List (List UInt8) :=
  match m.files.lookup name with
  | none => [str "File not found."]
  | some d => lines d

/-- A command: the map after it, and the lines it prints. -/
def FileMap.exec (m : FileMap) : Command → FileMap × List (List UInt8)
  | .touch name =>
      ((m.create name).1,
        [if (m.create name).2 = 0 then str "Created " ++ name else str "Failed to create file."])
  | .rm name =>
      ((m.remove name).1,
        [if (m.remove name).2 = 0 then str "Removed " ++ name else str "File not found."])
  | .write name text => (m.put name text, [str "Written."])
  | .cp src dst =>
      match m.files.lookup src with
      | none => (m, [str "Source not found."])
      | some d => (m.put dst d, [str "Copied."])
  | .cat name => (m, m.about name fun d => (catLines [] (d.take 2048)).map cstr)
  | .wc name =>
      (m, m.about name fun d =>
        [str "  " ++ decimal (d.count 10) ++ str " lines, " ++ decimal (tokens white d).length ++
          str " words, " ++ decimal d.length ++ str " bytes"])
  | .stat name =>
      (m, m.about name fun d =>
        [str "File: " ++ name, str "Size: " ++ decimal d.length ++ str " bytes",
          str "Loc:  RAM Disk VFS"])
  | .echo text => (m, [text])
  | .usage msg => (m, [msg])
  | .nothing => (m, [])

/-- The name under which a command stores something. -/
def Command.stores : Command → Option (List UInt8)
  | .touch name | .write name _ | .cp _ name => some name
  | _ => none

/-- The name whose file a command changes. -/
def Command.changes : Command → Option (List UInt8)
  | .rm name => some name
  | c => c.stores

section
variable {m : FileMap} {name name' d : List UInt8}

/-! ## The map behind a command -/

/-- What `create` changes: a name that is not there becomes an empty file, if there is room. -/
theorem FileMap.lookup_create (m : FileMap) (name name' : List UInt8) :
    (m.create name).1.files.lookup name' =
      if name' = name ∧ name ∉ m.files ∧ m.files.keys.card < maxFiles then some []
      else m.files.lookup name' := by
  unfold FileMap.create
  by_cases hmem : name ∈ m.files
  · simp [hmem]
  · by_cases hroom : m.files.keys.card < maxFiles
    · rw [if_neg hmem, dif_pos hroom]
      change (m.files.insert name []).lookup name' = _
      by_cases hname : name' = name
      · rw [if_pos ⟨hname, hmem, hroom⟩, hname, Finmap.lookup_insert]
      · rw [if_neg fun h => hname h.1, Finmap.lookup_insert_of_ne _ hname]
    · simp [hmem, hroom]

/-- What `write` changes: the contents of a name that is there. -/
theorem FileMap.lookup_write (m : FileMap) (name name' : List UInt8) (data : Bytes) (len : Nat) :
    (m.write name data len).1.files.lookup name' =
      if name' = name ∧ name ∈ m.files then some (data.take (min len maxFileSize))
      else m.files.lookup name' := by
  unfold FileMap.write
  by_cases hmem : name ∈ m.files
  · rw [dif_pos hmem]
    change (m.files.insert name _).lookup name' = _
    by_cases hname : name' = name
    · rw [if_pos ⟨hname, hmem⟩, hname, Finmap.lookup_insert]
    · rw [if_neg fun h => hname h.1, Finmap.lookup_insert_of_ne _ hname]
  · simp [hmem]

/-- What `remove` changes: it forgets the name. -/
theorem FileMap.lookup_remove (m : FileMap) (name name' : List UInt8) :
    (m.remove name).1.files.lookup name' =
      if name' = name then none else m.files.lookup name' := by
  unfold FileMap.remove
  by_cases hmem : name ∈ m.files
  · rw [if_pos hmem]
    change (m.files.erase name).lookup name' = _
    by_cases hname : name' = name
    · rw [if_pos hname, hname, Finmap.lookup_erase]
    · rw [if_neg hname, Finmap.lookup_erase_ne hname]
  · rw [if_neg hmem]
    by_cases hname : name' = name
    · rw [if_pos hname, hname, Finmap.lookup_eq_none.2 hmem]
    · rw [if_neg hname]

/-- A name that is there, or for which there is room. -/
def FileMap.Room (m : FileMap) (name : List UInt8) : Prop :=
  name ∈ m.files ∨ m.files.keys.card < maxFiles

instance : Decidable (m.Room name) := inferInstanceAs (Decidable (_ ∨ _))

/-- After `create` a name is there exactly if there was room for it. -/
theorem FileMap.mem_create : name ∈ (m.create name).1.files ↔ m.Room name := by
  unfold FileMap.create FileMap.Room
  by_cases hmem : name ∈ m.files
  · simp [hmem]
  · by_cases hroom : m.files.keys.card < maxFiles
    · rw [if_neg hmem, dif_pos hroom]
      change name ∈ m.files.insert name [] ↔ _
      simp [hroom]
    · simp [hmem, hroom]

/-- Storing is seen under the name, and under no other. -/
theorem FileMap.lookup_put (m : FileMap) (hd : d.length ≤ maxFileSize) (name name' : List UInt8) :
    (m.put name d).files.lookup name' =
      if name' = name ∧ m.Room name then some d else m.files.lookup name' := by
  have hbytes : (strBytes d).take (min d.length maxFileSize) = d := by
    rw [Nat.min_eq_left hd]
    exact take_getD d _ rfl
  unfold FileMap.put
  rw [FileMap.lookup_write, hbytes, FileMap.lookup_create]
  simp only [FileMap.mem_create]
  by_cases hroom : name' = name ∧ m.Room name
  · rw [if_pos hroom, if_pos hroom]
  · rw [if_neg hroom, if_neg hroom, if_neg fun h => hroom ⟨h.1, .inr h.2.2⟩]

/-- `cp` of a name that is not there copies nothing and says so. -/
theorem FileMap.exec_cp_none (h : m.files.lookup name = none) (name' : List UInt8) :
    m.exec (.cp name name') = (m, [str "Source not found."]) := by
  simp only [FileMap.exec, h]

/-- `cp` of a file stores its contents under the second name. It says `Copied.` even if the disk is
full. -/
theorem FileMap.exec_cp_some (h : m.files.lookup name = some d) (name' : List UInt8) :
    m.exec (.cp name name') = (m.put name' d, [str "Copied."]) := by
  simp only [FileMap.exec, h]

/-- A command changes the file it names, and no other. One case for each command; only `touch`,
`write`, `cp` and `rm` change any. -/
theorem FileMap.lookup_exec (m : FileMap) {c : Command} (h : c.changes ≠ some name) :
    (m.exec c).1.files.lookup name = m.files.lookup name := by
  have hput : ∀ (name' d : List UInt8), name ≠ name' →
      (m.put name' d).files.lookup name = m.files.lookup name := by
    intro name' d hne
    unfold FileMap.put
    rw [FileMap.lookup_write, if_neg fun h => hne h.1, FileMap.lookup_create,
      if_neg fun h => hne h.1]
  have hne : ∀ name', c.changes = some name' → name ≠ name' := by
    rintro name' hc rfl
    exact h hc
  cases c with
  | touch name' =>
      change (m.create name').1.files.lookup name = _
      rw [FileMap.lookup_create, if_neg fun h => hne name' rfl h.1]
  | rm name' =>
      change (m.remove name').1.files.lookup name = _
      rw [FileMap.lookup_remove, if_neg (hne name' rfl)]
  | write name' text => exact hput name' text (hne name' rfl)
  | cp src name' =>
      cases hsrc : m.files.lookup src with
      | none => rw [FileMap.exec_cp_none hsrc]
      | some d =>
          rw [FileMap.exec_cp_some hsrc]
          exact hput name' d (hne name' rfl)
  | cat | wc | stat | echo | usage | nothing => rfl

end

end OnkenOS
