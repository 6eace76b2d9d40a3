import OnkenOS.Lib.Run
import OnkenOS.Lib.SlotTable
import OnkenOS.Kernel.Fs

/-!
# The RAM disk is a map of names to contents

`FileMap` says what the RAM disk is for: a finite map of at most 64 names to byte strings of at
most 16384 bytes. The table refines it (`vfs_refines_map`): for names that fit in a slot, every
call on the table answers what the map answers, whatever the slots held before.
-/

namespace OnkenOS

open Machine SlotTable

/-! ## The map -/

/-- The files of a disk. -/
structure FileMap where
  files : Finmap fun _ : List UInt8 => List UInt8
  card_le : files.keys.card ≤ maxFiles
  size_le : ∀ {name d}, files.lookup name = some d → d.length ≤ maxFileSize

namespace FileMap

/-- The disk without files. -/
def empty : FileMap where
  files := ∅
  card_le := Nat.zero_le _
  size_le := by
    intro name d h
    rw [Finmap.lookup_empty] at h
    cases h

/-- Storing contents under a name that is there, or for which there is room. -/
def store (m : FileMap) (name d : List UInt8) (hd : d.length ≤ maxFileSize)
    (hroom : name ∈ m.files ∨ m.files.keys.card < maxFiles) : FileMap where
  files := m.files.insert name d
  card_le := by
    rw [keys_insert]
    rcases hroom with hmem | hlt
    · rw [Finset.insert_eq_of_mem (Finmap.mem_keys.2 hmem)]
      exact m.card_le
    · exact (Finset.card_insert_le _ _).trans hlt
  size_le := by
    intro name' d' h
    rcases eq_or_ne name' name with rfl | hne
    · rw [Finmap.lookup_insert, Option.some.injEq] at h
      rwa [← h]
    · rw [Finmap.lookup_insert_of_ne _ hne] at h
      exact m.size_le h

/-- A new file is empty; a file that is there stays as it is; a full disk refuses. -/
def create (m : FileMap) (name : List UInt8) : FileMap × Int :=
  if name ∈ m.files then (m, 0)
  else if h : m.files.keys.card < maxFiles then
    (m.store name [] (Nat.zero_le _) (.inr h), 0)
  else (m, -1)

/-- Writing keeps as much of the data as a file has room for. -/
def write (m : FileMap) (name : List UInt8) (data : Bytes) (len : Nat) : FileMap × Int :=
  if h : name ∈ m.files then
    (m.store name (data.take (min len maxFileSize)) (by simp) (.inl h), 0)
  else (m, -1)

/-- Reading copies as much of the contents as the buffer has room for. -/
def read (m : FileMap) (name : List UInt8) (buf : Bytes) (maxLen : Nat) : Bytes × Int :=
  match m.files.lookup name with
  | none => (buf, -1)
  | some d =>
      (fun i => if i < min d.length maxLen then d.getD i 0 else buf i, min d.length maxLen)

/-- Removing forgets the name. -/
def remove (m : FileMap) (name : List UInt8) : FileMap × Int :=
  if name ∈ m.files then
    ({ files := m.files.erase name
       card_le := by
         rw [Finmap.keys_erase]
         exact (Finset.card_erase_le).trans m.card_le
       size_le := by
         intro name' d h
         rcases eq_or_ne name' name with rfl | hne
         · rw [Finmap.lookup_erase] at h
           cases h
         · rw [Finmap.lookup_erase_ne hne] at h
           exact m.size_le h }, 0)
  else (m, -1)

end FileMap

/-! ## Calls -/

/-- A name that fits in a slot. -/
structure FileName where
  bytes : List UInt8
  zero_not_mem : 0 ∉ bytes
  short : bytes.length ≤ 31

/-- The calls of `fs.h`. -/
inductive VfsCall where
  | create (name : FileName)
  | write (name : FileName) (data : Bytes) (len : Nat)
  | read (name : FileName) (buf : Bytes) (maxLen : Nat)
  | remove (name : FileName)
  | openFile (name : FileName)
  | getByIndex (idx : Int)

/-- What a call shows to its caller: the returned number, the buffer, what the returned pointer
points to. -/
inductive VfsResult where
  | status (r : Int)
  | read (buf : Bytes) (r : Int)
  | file (entry : Option (List UInt8 × List UInt8))

/-- The table after a call. -/
def vfsStep (files : Files) : VfsCall → Files
  | .create name => (vfsCreate files name.bytes).1
  | .write name data len => (vfsWrite files name.bytes data len).1
  | .remove name => (vfsRemove files name.bytes).1
  | .read .. | .openFile _ | .getByIndex _ => files

/-- What a call on the table shows. -/
def vfsResult (files : Files) : VfsCall → VfsResult
  | .create name => .status (vfsCreate files name.bytes).2
  | .write name data len => .status (vfsWrite files name.bytes data len).2
  | .read name buf maxLen =>
      .read (vfsRead files name.bytes buf maxLen).1 (vfsRead files name.bytes buf maxLen).2
  | .remove name => .status (vfsRemove files name.bytes).2
  | .openFile name => .file ((vfsOpen files name.bytes).map fun i => (files i).entry)
  | .getByIndex idx => .file ((vfsGetByIndex files idx).map fun i => (files i).entry)

/-- The map after a call. -/
def FileMap.step (m : FileMap) : VfsCall → FileMap
  | .create name => (m.create name.bytes).1
  | .write name data len => (m.write name.bytes data len).1
  | .remove name => (m.remove name.bytes).1
  | .read .. | .openFile _ | .getByIndex _ => m

/-- What a call on the map may show. The map has no order: an index shows nothing or some
file. -/
def FileMap.Answers (m : FileMap) : VfsCall → VfsResult → Prop
  | .create name, r => r = .status (m.create name.bytes).2
  | .write name data len, r => r = .status (m.write name.bytes data len).2
  | .read name buf maxLen, r =>
      r = .read (m.read name.bytes buf maxLen).1 (m.read name.bytes buf maxLen).2
  | .remove name, r => r = .status (m.remove name.bytes).2
  | .openFile name, r => r = .file ((m.files.lookup name.bytes).map fun d => (name.bytes, d))
  | .getByIndex _, r =>
      r = .file none ∨ ∃ name d, r = .file (some (name, d)) ∧ m.files.lookup name = some d

/-! ## The table refines the map -/

/-- The table holds the files of the map. -/
def Holds (files : Files) (m : FileMap) : Prop := Refines fileView files m.files

section
variable {files : Files} {m : FileMap} {name : FileName} {i : Fin maxFiles}

/-- A name has no NUL, so as a string of C it is itself. -/
theorem FileName.cstr_bytes (name : FileName) : cstr name.bytes = name.bytes :=
  cstr_of_zero_not_mem name.zero_not_mem

/-- A name fits in the 31 characters that `strncpy` copies. -/
theorem FileName.take_bytes (name : FileName) : name.bytes.take 31 = name.bytes :=
  List.take_of_length_le name.short

/-- The search finds the slot of a file of the map, or the map has no such file. -/
theorem Holds.findFile (h : Holds files m) (name : FileName) :
    (∃ i, findFile files name.bytes = some i ∧
        fileView (files i) = some (name.bytes, (files i).bytes) ∧
        m.files.lookup name.bytes = some (files i).bytes) ∨
      (findFile files name.bytes = none ∧ name.bytes ∉ m.files) := by
  cases hf : OnkenOS.findFile files name.bytes with
  | none =>
      refine .inr ⟨rfl, fun hmem => ?_⟩
      obtain ⟨i, d, hi⟩ := h.mem_iff.1 hmem
      rw [← name.cstr_bytes] at hi
      exact findFile_eq_none hf hi
  | some i =>
      have hi := findFile_eq_some hf
      rw [name.cstr_bytes] at hi
      exact .inl ⟨i, rfl, hi, h.lookup_of_view hi⟩

/-- A name that the search does not find is not in the map. -/
theorem Holds.not_mem_of_findFile (h : Holds files m)
    (hf : OnkenOS.findFile files name.bytes = none) : name.bytes ∉ m.files := by
  rcases h.findFile name with ⟨i, hi, -⟩ | ⟨-, hmem⟩
  · rw [hf] at hi
    cases hi
  · exact hmem

/-- `vfs_create` stores what the map does, and answers as it: an empty file, a file that is there,
or a full disk. -/
theorem Holds.create (h : Holds files m) (name : FileName) :
    Holds (vfsCreate files name.bytes).1 (m.create name.bytes).1 ∧
      (vfsCreate files name.bytes).2 = (m.create name.bytes).2 := by
  have hlt := Refines.card_lt_iff h
  unfold FileMap.create
  rcases vfsCreate_cases files name.bytes with ⟨i, hf, he⟩ | ⟨hf, hfull, he⟩ |
    ⟨hf, i, hfree, -, he⟩
  · rcases h.findFile name with ⟨j, -, -, hd⟩ | ⟨hnone, -⟩
    · rw [he, if_pos (Finmap.mem_of_lookup_eq_some hd)]
      exact ⟨h, rfl⟩
    · rw [hf] at hnone
      cases hnone
  · have hmem := h.not_mem_of_findFile hf
    rw [he, if_neg hmem, dif_neg]
    · exact ⟨h, rfl⟩
    · intro hroom
      obtain ⟨i, hi⟩ := hlt.1 hroom
      rw [fileView_eq_none, hfull i] at hi
      cases hi
  · have hmem := h.not_mem_of_findFile hf
    have hview : fileView (files i) = none := fileView_eq_none.2 hfree
    have hnew : fileView ((files i).createAs name.bytes) = some (name.bytes, []) := by
      refine fileView_eq_some.2 ⟨rfl, ?_⟩
      rw [VfsFile.createAs_entry, name.cstr_bytes, name.take_bytes]
    rw [he, if_neg hmem, dif_pos (hlt.2 ⟨i, hview⟩)]
    exact ⟨Refines.insert_free h hview hmem hnew, rfl⟩

/-- `vfs_write` writes what the map does, cut to the size of a file, and answers as it. -/
theorem Holds.write (h : Holds files m) (name : FileName) (data : Bytes) (len : Nat) :
    Holds (vfsWrite files name.bytes data len).1 (m.write name.bytes data len).1 ∧
      (vfsWrite files name.bytes data len).2 = (m.write name.bytes data len).2 := by
  unfold vfsWrite vfsOpen FileMap.write
  rcases h.findFile name with ⟨i, hf, hi, hd⟩ | ⟨hf, hmem⟩
  · rw [hf, dif_pos (Finmap.mem_of_lookup_eq_some hd)]
    obtain ⟨hused, hentry⟩ := fileView_eq_some.1 hi
    have hnew : fileView ((files i).store data len) =
        some (name.bytes, data.take (min len maxFileSize)) := by
      refine fileView_eq_some.2 ⟨hused, ?_⟩
      rw [VfsFile.store_entry, show cstr (files i).name = name.bytes from congrArg Prod.fst hentry]
    exact ⟨Refines.replace h hi hnew, rfl⟩
  · rw [hf, dif_neg hmem]
    exact ⟨h, rfl⟩

/-- `vfs_remove` frees the slot of the file that the map forgets, and answers as it. -/
theorem Holds.remove (h : Holds files m) (name : FileName) :
    Holds (vfsRemove files name.bytes).1 (m.remove name.bytes).1 ∧
      (vfsRemove files name.bytes).2 = (m.remove name.bytes).2 := by
  unfold vfsRemove FileMap.remove
  rcases h.findFile name with ⟨i, hf, hi, hd⟩ | ⟨hf, hmem⟩
  · rw [hf, if_pos (Finmap.mem_of_lookup_eq_some hd)]
    exact ⟨Refines.erase h hi rfl, rfl⟩
  · rw [hf, if_neg hmem]
    exact ⟨h, rfl⟩

/-- `vfs_read` reads what the map has under the name, cut to the buffer. -/
theorem Holds.read (h : Holds files m) (name : FileName) (buf : Bytes) (maxLen : Nat) :
    vfsRead files name.bytes buf maxLen = m.read name.bytes buf maxLen := by
  unfold vfsRead vfsOpen FileMap.read
  rcases h.findFile name with ⟨i, hf, hi, hd⟩ | ⟨hf, hmem⟩
  · rw [hf, hd]
    have hcopy : (if (files i).size > maxLen then maxLen else (files i).size) =
        min (files i).size maxLen := by
      split <;> omega
    have hsmall : (files i).size ≤ 16384 := (files i).size_le
    refine Prod.ext (funext fun j => ?_) ?_
    · simp only [hcopy, VfsFile.length_bytes, Words.copyWords_apply, Nat.zero_le, true_and,
        Nat.zero_add]
      split
      · next hj =>
          have hj : j < (files i).size := by omega
          exact (Bytes.getD_take hj).symm
      · rfl
    · have hlt : min (files i).size maxLen < 2 ^ 31 := by omega
      simp only [hcopy, VfsFile.length_bytes]
      rw [BitVec.toInt_eq_toNat_of_lt, BitVec.toNat_ofNat]
      · omega
      · rw [BitVec.toNat_ofNat]
        omega
  · rw [hf, Finmap.lookup_eq_none.2 hmem]

/-- Every call keeps the table a table of the map. -/
theorem Holds.step (h : Holds files m) (call : VfsCall) :
    Holds (vfsStep files call) (m.step call) := by
  cases call with
  | create name => exact (h.create name).1
  | write name data len => exact (h.write name data len).1
  | remove name => exact (h.remove name).1
  | read | openFile | getByIndex => exact h

/-- The table of zeros holds no files. -/
theorem holds_zero : Holds Files.zero .empty := refines_empty fun _ => rfl

/-- After any calls the table holds the files of the map after the same calls. By induction, from
one call. -/
theorem Holds.run (calls : List VfsCall) :
    Holds (run vfsStep Files.zero calls) (run FileMap.step .empty calls) :=
  run_simulation (R := Holds) (fun _ _ call h => h.step call) calls holds_zero

/-- An index shows the slot of that number, if it is used. -/
theorem vfsGetByIndex_eq_some {idx : Int} :
    vfsGetByIndex files idx = some i ↔ idx = i ∧ (files i).used = true := by
  unfold vfsGetByIndex
  have hi := i.isLt
  split
  · next h =>
      have heq : (⟨idx.toNat, by omega⟩ : Fin maxFiles) = i ↔ idx = i := by
        rw [Fin.ext_iff]
        change idx.toNat = i.val ↔ idx = i.val
        omega
      rw [Option.ite_none_right_eq_some, Option.some.injEq, heq, and_comm]
      refine and_congr_right fun hidx => ?_
      rw [heq.2 hidx]
  · next h =>
      refine ⟨fun he => (by cases he), fun he => absurd ?_ h⟩
      omega

/-- Every call answers what the map answers: by the call, from what it does to the table. -/
theorem Holds.answers (h : Holds files m) (call : VfsCall) :
    m.Answers call (vfsResult files call) := by
  cases call with
  | create name => exact congrArg VfsResult.status (h.create name).2
  | write name data len => exact congrArg VfsResult.status (h.write name data len).2
  | remove name => exact congrArg VfsResult.status (h.remove name).2
  | read name buf maxLen =>
      change VfsResult.read _ _ = VfsResult.read _ _
      rw [h.read]
  | openFile name =>
      change VfsResult.file ((OnkenOS.findFile files name.bytes).map _) = _
      rcases h.findFile name with ⟨i, hf, hi, hd⟩ | ⟨hf, hmem⟩
      · rw [hf, hd, Option.map_some, Option.map_some, (fileView_eq_some.1 hi).2]
      · rw [hf, Finmap.lookup_eq_none.2 hmem, Option.map_none, Option.map_none]
  | getByIndex idx =>
      have hshow : vfsResult files (.getByIndex idx) =
          .file ((vfsGetByIndex files idx).map fun i => (files i).entry) := rfl
      cases hf : vfsGetByIndex files idx with
      | none =>
          rw [hf] at hshow
          exact .inl hshow
      | some i =>
          have hused := (vfsGetByIndex_eq_some.1 hf).2
          rw [hf] at hshow
          exact .inr ⟨_, _, hshow, Refines.lookup_of_view h (fileView_eq_some.2 ⟨hused, rfl⟩)⟩

/-- Every file is shown at one index, that of the slot which holds it. -/
theorem Holds.index_unique (h : Holds files m) {name d : List UInt8}
    (hd : m.files.lookup name = some d) :
    ∃! idx, vfsResult files (.getByIndex idx) = .file (some (name, d)) := by
  have hshown : ∀ {idx}, vfsResult files (.getByIndex idx) = .file (some (name, d)) ↔
      ∃ i : Fin maxFiles, idx = i ∧ fileView (files i) = some (name, d) := by
    intro idx
    change VfsResult.file ((vfsGetByIndex files idx).map _) = _ ↔ _
    rw [VfsResult.file.injEq, Option.map_eq_some_iff]
    exact exists_congr fun i => by rw [vfsGetByIndex_eq_some, fileView_eq_some, and_assoc]
  obtain ⟨i, hi⟩ := (h.lookup_iff name d).1 hd
  refine ⟨i, hshown.2 ⟨i, rfl, hi⟩, fun idx hidx => ?_⟩
  obtain ⟨j, rfl, hj⟩ := hshown.1 hidx
  rw [Refines.distinct h hj hi]

end

/-! ## Runs of calls -/

/-- The name a call may change. -/
def VfsCall.target : VfsCall → Option (List UInt8)
  | .create name | .write name .. | .remove name => some name.bytes
  | .read .. | .openFile _ | .getByIndex _ => none

/-- A call on the map changes the file of its own name only. -/
theorem FileMap.step_other (m : FileMap) {call : VfsCall} {name : List UInt8}
    (h : call.target ≠ some name) : (m.step call).files.lookup name = m.files.lookup name := by
  cases call with
  | create target =>
      have hne : name ≠ target.bytes := fun he => h (congrArg some he.symm)
      change (m.create target.bytes).1.files.lookup name = _
      unfold FileMap.create
      split
      · rfl
      · split
        · exact Finmap.lookup_insert_of_ne _ hne
        · rfl
  | write target data len =>
      have hne : name ≠ target.bytes := fun he => h (congrArg some he.symm)
      change (m.write target.bytes data len).1.files.lookup name = _
      unfold FileMap.write
      split
      · exact Finmap.lookup_insert_of_ne _ hne
      · rfl
  | remove target =>
      have hne : name ≠ target.bytes := fun he => h (congrArg some he.symm)
      change (m.remove target.bytes).1.files.lookup name = _
      unfold FileMap.remove
      split
      · exact Finmap.lookup_erase_ne hne
      · rfl
  | read | openFile | getByIndex => rfl

/-- A name that was removed is not in the map. -/
theorem FileMap.not_mem_remove (m : FileMap) (name : List UInt8) :
    name ∉ (m.remove name).1.files := by
  unfold FileMap.remove
  split
  · exact Finmap.notMem_erase_self
  · next hmem => exact hmem

/-- A file is created empty, if at all: reading it at once leaves the buffer as it was. -/
theorem FileMap.create_read (m : FileMap) {name : List UInt8} (hname : name ∉ m.files)
    (buf : Bytes) (maxLen : Nat) : ((m.create name).1.read name buf maxLen).1 = buf := by
  have hnew : (m.create name).1.files.lookup name = none ∨
      (m.create name).1.files.lookup name = some [] := by
    unfold FileMap.create
    rw [if_neg hname]
    split
    · exact .inr (Finmap.lookup_insert _)
    · exact .inl (Finmap.lookup_eq_none.2 hname)
  unfold FileMap.read
  rcases hnew with hnone | hempty
  · rw [hnone]
  · rw [hempty]
    funext i
    simp

/-- The table refines the map: after any calls from the table of zeros, every call answers what the
map answers, every file has one index, a call leaves the other files as they are, and a file that is
created again has nothing to read. The relation `Holds` is kept by every call, and the rest follows
from it. -/
theorem vfs_refines_map (calls : List VfsCall) :
    let files := run vfsStep Files.zero calls
    let m := run FileMap.step .empty calls
    (∀ call, m.Answers call (vfsResult files call)) ∧
      (∀ name d, m.files.lookup name = some d →
        ∃! idx, vfsResult files (.getByIndex idx) = .file (some (name, d))) ∧
      (∀ call (name : FileName), call.target ≠ some name.bytes →
        vfsResult (vfsStep files call) (.openFile name) = vfsResult files (.openFile name)) ∧
      ∀ (name : FileName) buf maxLen,
        (vfsRead (run vfsStep files [.remove name, .create name]) name.bytes buf maxLen).1 =
          buf := by
  intro files m
  have h : Holds files m := Holds.run calls
  refine ⟨h.answers, fun name d => h.index_unique, fun call name hcall => ?_,
    fun name buf maxLen => ?_⟩
  · have hbefore := h.answers (.openFile name)
    have hafter := (h.step call).answers (.openFile name)
    rw [hafter, hbefore, m.step_other hcall]
  · have hrec : Holds _ _ := (h.step (.remove name)).step (.create name)
    rw [run_cons, run_cons, run_nil, hrec.read]
    exact FileMap.create_read _ (m.not_mem_remove name.bytes) buf maxLen

end OnkenOS
