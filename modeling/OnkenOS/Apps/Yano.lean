import OnkenOS.Kernel.Format
import OnkenOS.Kernel.Fs
import OnkenOS.Lib.Capped

/-!
# The text editor

`yano_launch` and `yano_handle_key` of `apps/yano/yano.c`, with the static variables and the RAM
disk. The text is the first `yano_len` bytes of a buffer of 4096, one of them for the NUL: typing is
editing with a capacity of 4095 (`text_typeKey`), and a file is loaded as far as it fits
(`text_openFile`).
-/

namespace OnkenOS

open Words Machine Capped

/-- `YANO_BUF_SIZE`. -/
abbrev yanoBufSize : Nat := 4096

/-- The static variables of `yano.c`. The array with the file's name stays terminated. -/
structure Yano where
  buf : Bytes
  len : Nat
  currentFilename : List UInt8
  windowTitle : List UInt8
  filename_length : currentFilename.length = 32
  filename_end : currentFilename[31]? = some 0

/-- The state a key is handled in; `closed` is the flag of the active window. -/
structure Editor where
  yano : Yano
  files : Files
  closed : Bool

/-! ## Launching -/

/-- `welcome`. -/
def welcomeText : List UInt8 :=
  str "Welcome to yano!\nStart typing here...\nCtrl+S to Save, Ctrl+X to Exit."

/-- Copying 31 characters into an array of 32 leaves its length. -/
theorem strncpy_length_name {name : List UInt8} (h : name.length = 32) (src : List UInt8) :
    (strncpy name src 31).length = 32 := by
  rw [length_strncpy src (by omega), h]

/-- `strncpy(current_filename, args, 31); current_filename[31] = '\0';`. -/
def Yano.setFilename (y : Yano) (args : List UInt8) : Yano where
  buf := y.buf
  len := y.len
  currentFilename := (strncpy y.currentFilename args 31).set 31 0
  windowTitle := y.windowTitle
  filename_length := by rw [List.length_set, strncpy_length_name y.filename_length]
  filename_end := by
    rw [List.getElem?_set_self]
    rw [strncpy_length_name y.filename_length]
    decide

/-- `memset(yano_buf, 0, YANO_BUF_SIZE); yano_len = 0;`. -/
def Yano.reset (y : Yano) : Yano :=
  { y with
    buf := fun i => if i < yanoBufSize then 0 else y.buf i
    len := 0 }

/-- The branch of `yano_launch` with a file name. -/
def Yano.openFile (y : Yano) (files : Files) (args : List UInt8) : Yano × Files :=
  let y := y.setFilename args
  match vfsOpen files y.currentFilename with
  | some i =>
      if (files i).size > 0 then
        let copyLen :=
          if (files i).size > yanoBufSize - 1 then yanoBufSize - 1 else (files i).size
        ({ y with
          buf := Function.update (copyWords y.buf (files i).data 0 0 copyLen) copyLen 0
          len := copyLen }, files)
      else (y, files)
  | none =>
      ({ y with buf := Function.update y.buf 0 0, len := 0 }, (vfsCreate files y.currentFilename).1)

/-- The branch of `yano_launch` without one. -/
def Yano.welcome (y : Yano) : Yano where
  buf := fun i => if i < yanoBufSize - 1 then welcomeText.getD i 0 else y.buf i
  len := strlen welcomeText
  currentFilename := strncpy y.currentFilename (str "new.txt") 31
  windowTitle := y.windowTitle
  filename_length := strncpy_length_name y.filename_length _
  filename_end := by
    rw [strncpy_eq, List.getElem?_append_right (by decide), List.getElem?_drop]
    exact y.filename_end

/-- `xsprintf(window_title, "yano - %s", current_filename);`. -/
def Yano.setTitle (y : Yano) : Yano :=
  { y with windowTitle := (xsprintf (str "yano - %s") [.str y.currentFilename]).getD [] }

/-- `yano_launch`, up to the window and the task it adds. -/
def yanoLaunch (s : Editor) (args : Option (List UInt8)) : Editor :=
  let y := s.yano.reset
  match args with
  | some args =>
      if strlen args > 0 then
        let (y, files) := y.openFile s.files args
        { s with yano := y.setTitle, files := files }
      else { s with yano := y.welcome.setTitle }
  | none => { s with yano := y.welcome.setTitle }

/-! ## Keys -/

/-- `yano_buf[yano_len++] = c; yano_buf[yano_len] = '\0';`, if there is room. -/
def Yano.put (y : Yano) (c : UInt8) : Yano :=
  if y.len < yanoBufSize - 1 then
    { y with
      buf := Function.update (Function.update y.buf y.len c) (y.len + 1) 0
      len := y.len + 1 }
  else y

/-- The standard typing of `yano_handle_key`. -/
def Yano.typeKey (y : Yano) (c : UInt8) : Yano :=
  if c = 10 ∨ c = 13 then y.put 10
  else if c = 8 then
    if y.len > 0 then
      { y with buf := Function.update y.buf (y.len - 1) 0, len := y.len - 1 }
    else y
  else if 32 ≤ c ∧ c < 127 then y.put c
  else y

/-- The save branch of `yano_handle_key`. -/
def Editor.save (s : Editor) : Editor :=
  let files :=
    match vfsOpen s.files s.yano.currentFilename with
    | none => (vfsCreate s.files s.yano.currentFilename).1
    | some _ => s.files
  { s with files := (vfsWrite files s.yano.currentFilename s.yano.buf s.yano.len).1 }

/-- `yano_handle_key`. -/
def yanoHandleKey (s : Editor) (ctrl : Bool) (c : UInt8) : Editor :=
  if ctrl then
    if c = 120 ∨ c = 88 then { s with closed := true }
    else if c = 115 ∨ c = 83 ∨ c = 111 ∨ c = 79 then s.save
    else s
  else { s with yano := s.yano.typeKey c }

/-! ## The text -/

/-- The text in the editor. -/
def Yano.text (y : Yano) : List UInt8 := y.buf.take y.len

/-- What a key does to a text, if anything. -/
def keyEdit (c : UInt8) : Option (Edit UInt8) :=
  if c = 10 ∨ c = 13 then some (.push 10)
  else if c = 8 then some .pop
  else if 32 ≤ c ∧ c < 127 then some (.push c)
  else none

/-- What some keys do to a text. -/
def keyEdits (keys : List UInt8) : List (Edit UInt8) := keys.filterMap keyEdit

/-- The edits of some keys, by the first key. -/
theorem keyEdits_cons (c : UInt8) (keys : List UInt8) :
    keyEdits (c :: keys) = (keyEdit c).toList ++ keyEdits keys := by
  unfold keyEdits
  rw [List.filterMap_cons]
  cases keyEdit c <;> rfl

/-- A text with some keys applied at its end. -/
def applyKeys (text keys : List UInt8) : List UInt8 := run edit text (keyEdits keys)

section
variable {y : Yano} {files : Files} {c : UInt8}

/-- One byte more is taken at the end. -/
theorem Bytes.take_succ (data : Bytes) (n : Nat) : data.take (n + 1) = data.take n ++ [data n] := by
  simp [Bytes.take, List.range_succ]

@[simp] theorem Yano.length_text (y : Yano) : y.text.length = y.len :=
  Bytes.length_take y.buf y.len

/-- Storing a character extends the text, unless the buffer is full: the buffer is a text with a
capacity. -/
theorem text_put (y : Yano) (c : UInt8) :
    (y.put c).text = capped (yanoBufSize - 1) y.text (.push c) := by
  rw [capped_push, Yano.length_text]
  unfold Yano.put
  split
  · have hbuf : ∀ i, i < y.len →
        Function.update (Function.update y.buf y.len c) (y.len + 1) 0 i = y.buf i := by
      intro i hi
      rw [Function.update_of_ne (by omega), Function.update_of_ne (by omega)]
    have hlast : Function.update (Function.update y.buf y.len c) (y.len + 1) 0 y.len = c := by
      rw [Function.update_of_ne (by omega), Function.update_self]
    rw [Yano.text, Bytes.take_succ, Bytes.take_congr hbuf]
    exact congrArg (fun d => y.text ++ [d]) hlast
  · rfl

/-- Typing a key edits the text, within the capacity of the buffer. -/
theorem text_typeKey (y : Yano) (c : UInt8) :
    (y.typeKey c).text = ((keyEdit c).map (capped (yanoBufSize - 1) y.text)).getD y.text := by
  unfold Yano.typeKey keyEdit
  split
  · exact text_put y 10
  · split
    · rw [Option.map_some, Option.getD_some, capped_pop]
      split
      · next hlen =>
          obtain ⟨n, hn⟩ := Nat.exists_eq_succ_of_ne_zero (Nat.ne_of_gt hlen)
          have hbuf : ∀ i, i < n → Function.update y.buf n 0 i = y.buf i :=
            fun i hi => Function.update_of_ne (by omega) _ _
          simp only [Yano.text, hn, Nat.succ_sub_one, Nat.succ_eq_add_one, Bytes.take_succ,
            List.dropLast_concat, Bytes.take_congr hbuf]
      · next hlen =>
          have hzero : y.len = 0 := by omega
          simp [Yano.text, hzero, Bytes.take]
    · split
      · exact text_put y c
      · rfl

/-- Typing some keys edits the text in a buffer with a capacity, by induction from one key. -/
theorem text_typeKeys (keys : List UInt8) : ∀ y : Yano,
    (run Yano.typeKey y keys).text = run (capped (yanoBufSize - 1)) y.text (keyEdits keys) := by
  induction keys with
  | nil => exact fun _ => rfl
  | cons c keys ih =>
      intro y
      rw [run_cons, ih, text_typeKey, keyEdits_cons]
      cases keyEdit c with
      | none => rfl
      | some e => rfl

/-! ## What is loaded and what is saved -/

@[simp] theorem Yano.text_setTitle (y : Yano) : y.setTitle.text = y.text := rfl

@[simp] theorem Yano.currentFilename_setTitle (y : Yano) :
    y.setTitle.currentFilename = y.currentFilename := rfl

/-- The name that a launch keeps is its argument, cut to 31 characters. -/
theorem cstr_setFilename (y : Yano) (args : List UInt8) :
    cstr (y.setFilename args).currentFilename = (cstr args).take 31 :=
  cstr_strncpy_set args y.filename_length

/-- `memcpy(buf, data, n); buf[n] = '\0';` puts the first `n` bytes in front. -/
theorem take_copy (buf data : Bytes) (n : Nat) :
    Bytes.take (Function.update (copyWords buf data 0 0 n) n 0) n = data.take n := by
  refine Bytes.take_congr fun i hi => ?_
  rw [Function.update_of_ne (by omega), copyWords_apply, if_pos ⟨Nat.zero_le i, by omega⟩]

/-- A file that is there is loaded as far as it fits. -/
theorem openFile_some {args : List UInt8} {i : Fin maxFiles}
    (h : vfsOpen files (y.reset.setFilename args).currentFilename = some i) :
    (y.reset.openFile files args).2 = files ∧
      (y.reset.openFile files args).1.text = (files i).bytes.take (yanoBufSize - 1) ∧
      (y.reset.openFile files args).1.currentFilename =
        (y.reset.setFilename args).currentFilename := by
  unfold Yano.openFile
  simp only [h]
  split
  · have hlen : (if (files i).size > yanoBufSize - 1 then yanoBufSize - 1 else (files i).size) =
        min (yanoBufSize - 1) (files i).size := by
      split <;> omega
    refine ⟨rfl, ?_, rfl⟩
    rw [VfsFile.bytes, Bytes.take_take, ← hlen]
    exact take_copy _ _ _
  · next hsize =>
      have hzero : (files i).size = 0 := by omega
      refine ⟨rfl, ?_, rfl⟩
      rw [VfsFile.bytes, hzero]
      rfl

/-- Without an argument the editor shows its welcome. -/
theorem text_welcome (y : Yano) : y.welcome.text = welcomeText := by
  have hlen : strlen welcomeText = welcomeText.length := rfl
  have hroom : strlen welcomeText < yanoBufSize := by decide
  have hbuf : ∀ i, i < strlen welcomeText → y.welcome.buf i = welcomeText.getD i 0 :=
    fun i hi => if_pos (by omega)
  rw [Yano.text, show y.welcome.len = strlen welcomeText from rfl, Bytes.take_congr hbuf]
  exact take_getD welcomeText _ hlen

/-- That text is edited as `new.txt`. -/
theorem cstr_welcome (y : Yano) : cstr y.welcome.currentFilename = str "new.txt" := by
  have hend : y.currentFilename.drop 31 = [0] := by
    obtain ⟨last, hlast⟩ := List.length_eq_one_iff.1
      (show (y.currentFilename.drop 31).length = 1 by rw [List.length_drop, y.filename_length])
    have hzero := y.filename_end
    rw [← List.head?_drop, hlast, List.head?_cons, Option.some.injEq] at hzero
    rw [hlast, hzero]
  rw [show y.welcome.currentFilename = strncpy y.currentFilename (str "new.txt") 31 from rfl,
    strncpy_eq, hend]
  rfl

/-! ## What a launch leaves -/

/-- The file `yano_launch` is called for. -/
def launchedFile : Option (List UInt8) → List UInt8
  | some args => if strlen args > 0 then (cstr args).take 31 else str "new.txt"
  | none => str "new.txt"

/-- The text it shows. -/
def launchedText (files : Files) : Option (List UInt8) → List UInt8
  | some args =>
      if strlen args > 0 then
        ((vfsOpen files ((cstr args).take 31)).map fun i =>
          (files i).bytes.take (yanoBufSize - 1)).getD []
      else welcomeText
  | none => welcomeText

/-- A file that is not there is created, and the text is empty. -/
theorem openFile_none {args : List UInt8}
    (h : vfsOpen files (y.reset.setFilename args).currentFilename = none) :
    (y.reset.openFile files args).2 =
        (vfsCreate files (y.reset.setFilename args).currentFilename).1 ∧
      (y.reset.openFile files args).1.text = [] ∧
      (y.reset.openFile files args).1.currentFilename =
        (y.reset.setFilename args).currentFilename := by
  unfold Yano.openFile
  simp only [h]
  exact ⟨trivial, rfl, trivial⟩

/-- A part of a string of C is a string without a NUL. -/
theorem cstr_take (s : List UInt8) (n : Nat) : cstr ((cstr s).take n) = (cstr s).take n :=
  cstr_of_zero_not_mem fun hmem => zero_not_mem_cstr s (List.mem_of_mem_take hmem)

/-- The search of `yano_launch` is for the name it is called with, cut to 31 bytes. -/
theorem vfsOpen_setFilename (y : Yano) (files : Files) (args : List UInt8) :
    vfsOpen files (y.setFilename args).currentFilename = vfsOpen files ((cstr args).take 31) :=
  vfsOpen_congr ((cstr_setFilename y args).trans (cstr_take args 31).symm)

/-- A file that is not there is created, empty and under the cut name. -/
theorem yanoLaunch_creates (s : Editor) {args : List UInt8} (hlen : strlen args > 0)
    (h : vfsOpen s.files ((cstr args).take 31) = none) :
    (yanoLaunch s (some args)).files =
      (vfsCreate s.files (yanoLaunch s (some args)).yano.currentFilename).1 := by
  obtain ⟨hfiles, -, hcur⟩ :=
    openFile_none (y := s.yano) ((vfsOpen_setFilename s.yano.reset s.files args).trans h)
  simp only [yanoLaunch, if_pos hlen, Yano.currentFilename_setTitle]
  rw [hfiles, hcur]

/-- `yano_launch` shows the file it is called for. The RAM disk changes only if the file is not
there, and then as `vfs_create` changes it. -/
theorem yanoLaunch_loads (s : Editor) (args : Option (List UInt8)) :
    cstr (yanoLaunch s args).yano.currentFilename = launchedFile args ∧
      (yanoLaunch s args).yano.text = launchedText s.files args ∧
      ((yanoLaunch s args).files = s.files ∨
        vfsOpen s.files (launchedFile args) = none ∧
          (yanoLaunch s args).files =
            (vfsCreate s.files (yanoLaunch s args).yano.currentFilename).1) := by
  cases args with
  | none => exact ⟨cstr_welcome _, text_welcome _, .inl rfl⟩
  | some args =>
      by_cases hlen : strlen args > 0
      · have hname := cstr_setFilename s.yano.reset args
        have hfind := vfsOpen_setFilename s.yano.reset s.files args
        cases hopen : vfsOpen s.files ((cstr args).take 31) with
        | some i =>
            obtain ⟨hfiles, htext, hcur⟩ := openFile_some (hfind.trans hopen)
            simp only [yanoLaunch, launchedFile, launchedText, if_pos hlen, hopen,
              Yano.text_setTitle, Yano.currentFilename_setTitle]
            exact ⟨by rw [hcur, hname], htext, .inl hfiles⟩
        | none =>
            obtain ⟨-, htext, hcur⟩ := openFile_none (hfind.trans hopen)
            refine ⟨?_, ?_, .inr ⟨?_, yanoLaunch_creates s hlen hopen⟩⟩
            · simp only [yanoLaunch, launchedFile, if_pos hlen, Yano.currentFilename_setTitle]
              rw [hcur, hname]
            · simp only [yanoLaunch, launchedText, if_pos hlen, hopen, Yano.text_setTitle]
              exact htext
            · simp only [launchedFile, if_pos hlen, hopen]
      · simp only [yanoLaunch, launchedFile, launchedText, if_neg hlen, Yano.text_setTitle,
          Yano.currentFilename_setTitle]
        exact ⟨cstr_welcome _, text_welcome _, .inl trivial⟩

end

end OnkenOS
