import OnkenOS.Lib.Words
import OnkenOS.Kernel.CString
import Mathlib.Data.Fin.Tuple.Basic

/-!
# The RAM disk

`kernel/fs.c`: a table of 64 slots, each with a name of 32 bytes and 16384 bytes of data. A
pointer into the table is the number of its slot. A slot keeps its name terminated and its
size within its data, which the fields of `VfsFile` state: every function that stores into a
slot proves them again.

Data that is read or written is the memory behind its pointer, as far as the code goes.
-/

namespace OnkenOS

open Words

/-- `MAX_FILES`. -/
abbrev maxFiles : Nat := 64

/-- `MAX_FILE_SIZE`. -/
abbrev maxFileSize : Nat := 16384

/-- The memory behind a `char*` to data. -/
abbrev Bytes := Nat → UInt8

/-- `vfs_file_t`. -/
structure VfsFile where
  name : List UInt8
  data : Bytes
  size : Nat
  used : Bool
  name_length : name.length = 32
  name_end : name[31]? = some 0
  size_le : size ≤ maxFileSize

/-- `files`. -/
abbrev Files := Fin maxFiles → VfsFile

/-- A slot of zeros. -/
def VfsFile.zero : VfsFile where
  name := List.replicate 32 0
  data := fun _ => 0
  size := 0
  used := false
  name_length := rfl
  name_end := rfl
  size_le := Nat.zero_le _

/-- The table at the start, all zeros. -/
def Files.zero : Files := fun _ => .zero

/-- The search for a name, by which `vfs_create`, `vfs_open` and `vfs_remove` start. -/
def findFile (files : Files) (name : List UInt8) : Option (Fin maxFiles) :=
  Fin.find? fun i => (files i).used && strcmp (files i).name name == 0

/-- `vfs_open`. -/
def vfsOpen (files : Files) (name : List UInt8) : Option (Fin maxFiles) := findFile files name

/-- What `vfs_create` stores into a free slot. -/
def VfsFile.createAs (f : VfsFile) (name : List UInt8) : VfsFile where
  name := (strncpy f.name name 31).set 31 0
  data := f.data
  size := 0
  used := true
  name_length := by
    rw [List.length_set, length_strncpy name (by rw [f.name_length]; omega), f.name_length]
  name_end := by
    rw [List.getElem?_set_self]
    rw [length_strncpy name (by rw [f.name_length]; omega), f.name_length]
    omega
  size_le := Nat.zero_le _

/-- `vfs_create`. -/
def vfsCreate (files : Files) (name : List UInt8) : Files × Int :=
  match findFile files name with
  | some _ => (files, 0)
  | none =>
      match Fin.find? fun i => !(files i).used with
      | some i => (Function.update files i ((files i).createAs name), 0)
      | none => (files, -1)

/-- What `vfs_write` stores into the slot. -/
def VfsFile.store (f : VfsFile) (data : Bytes) (len : Nat) : VfsFile :=
  let len' := if len > maxFileSize then maxFileSize else len
  { f with
    data := copyWords f.data data 0 0 len'
    size := len'
    size_le := by
      change (if len > maxFileSize then maxFileSize else len) ≤ maxFileSize
      split <;> omega }

/-- `vfs_write`. -/
def vfsWrite (files : Files) (name : List UInt8) (data : Bytes) (len : Nat) : Files × Int :=
  match vfsOpen files name with
  | none => (files, -1)
  | some i => (Function.update files i ((files i).store data len), 0)

/-- `vfs_read`, with what `buf` holds after the call. -/
def vfsRead (files : Files) (name : List UInt8) (buf : Bytes) (maxLen : Nat) : Bytes × Int :=
  match vfsOpen files name with
  | none => (buf, -1)
  | some i =>
      let toCopy := if (files i).size > maxLen then maxLen else (files i).size
      (copyWords buf (files i).data 0 0 toCopy, (BitVec.ofNat 32 toCopy).toInt)

/-- `vfs_remove`. -/
def vfsRemove (files : Files) (name : List UInt8) : Files × Int :=
  match findFile files name with
  | some i => (Function.update files i { files i with used := false }, 0)
  | none => (files, -1)

/-- `vfs_get_by_index`. -/
def vfsGetByIndex (files : Files) (idx : Int) : Option (Fin maxFiles) :=
  if h : 0 ≤ idx ∧ idx < maxFiles then
    let i : Fin maxFiles := ⟨idx.toNat, by omega⟩
    if (files i).used then some i else none
  else none

/-! ## What a slot holds -/

/-- The first `n` bytes. -/
def Bytes.take (data : Bytes) (n : Nat) : List UInt8 := (List.range n).map data

/-- The contents of a file. -/
def VfsFile.bytes (f : VfsFile) : List UInt8 := f.data.take f.size

/-- The name and the contents of a file. -/
def VfsFile.entry (f : VfsFile) : List UInt8 × List UInt8 := (cstr f.name, f.bytes)

/-- What a slot holds: nothing unless it is used. -/
def fileView (f : VfsFile) : Option (List UInt8 × List UInt8) :=
  if f.used then some f.entry else none

section
variable {files : Files} {name : List UInt8} {i : Fin maxFiles} {f : VfsFile}

@[simp] theorem Bytes.length_take (data : Bytes) (n : Nat) : (data.take n).length = n := by
  simp [Bytes.take]

/-- The first bytes depend on those bytes only. -/
theorem Bytes.take_congr {data data' : Bytes} {n : Nat} (h : ∀ i, i < n → data i = data' i) :
    data.take n = data'.take n :=
  List.map_congr_left fun i hi => h i (List.mem_range.1 hi)

/-- A byte of the first ones is the byte of the data. -/
theorem Bytes.getD_take {data : Bytes} {n i : Nat} (h : i < n) :
    (data.take n).getD i 0 = data i := by
  simp [Bytes.take, List.getD_eq_getElem?_getD, h]

/-- Taking bytes twice takes the smaller number. -/
theorem Bytes.take_take (data : Bytes) (m n : Nat) :
    (data.take n).take m = data.take (min m n) := by
  rw [Bytes.take, ← List.map_take, List.take_range, Bytes.take]

/-- The bytes of a list are the memory behind it. -/
theorem take_getD (l : List UInt8) (n : Nat) (h : n = l.length) :
    Bytes.take (fun i => l.getD i 0) n = l := by
  subst h
  apply List.ext_getElem
  · simp
  · intro i _ hi
    simp [Bytes.take, hi]

@[simp] theorem VfsFile.length_bytes (f : VfsFile) : f.bytes.length = f.size :=
  Bytes.length_take f.data f.size

/-- A name has at most 31 bytes: the last of the array is zero. -/
theorem VfsFile.strlen_name_le (f : VfsFile) : strlen f.name ≤ 31 :=
  length_cstr_le f.name_end

/-- The name is cut to 31 bytes. -/
theorem VfsFile.createAs_entry (f : VfsFile) (name : List UInt8) :
    (f.createAs name).entry = ((cstr name).take 31, []) :=
  Prod.ext (cstr_strncpy_set name f.name_length) rfl

/-- The data is cut to the size of the array. -/
theorem VfsFile.store_entry (f : VfsFile) (data : Bytes) (len : Nat) :
    (f.store data len).entry = (cstr f.name, data.take (min len maxFileSize)) := by
  have hlen : min len maxFileSize = if len > maxFileSize then maxFileSize else len := by
    split <;> omega
  rw [hlen]
  refine Prod.ext rfl (Bytes.take_congr fun i hi => ?_)
  change copyWords f.data data 0 0 _ i = data i
  rw [copyWords_apply, Nat.zero_add]
  exact if_pos ⟨Nat.zero_le i, hi⟩

/-- A slot holds a file if it is used, and then its name and contents. -/
theorem fileView_eq_some {f : VfsFile} {e : List UInt8 × List UInt8} :
    fileView f = some e ↔ f.used = true ∧ f.entry = e := by
  unfold fileView
  split
  · next hu => rw [Option.some.injEq, hu, and_iff_right rfl]
  · next hu => exact ⟨fun he => (by cases he), fun he => absurd he.1 hu⟩

/-- A slot holds none if it is not used. -/
theorem fileView_eq_none {f : VfsFile} : fileView f = none ↔ f.used = false := by
  unfold fileView
  split
  · next hu => rw [hu]; exact ⟨fun he => (by cases he), fun he => (by cases he)⟩
  · next hu => exact ⟨fun _ => Bool.eq_false_of_not_eq_true hu, fun _ => rfl⟩

/-- The search finds a slot that holds a file of that name. -/
theorem findFile_eq_some (h : findFile files name = some i) :
    fileView (files i) = some (cstr name, (files i).bytes) := by
  have hi := (Fin.find?_eq_some_iff.1 h).1
  rw [Bool.and_eq_true, beq_iff_eq, strcmp_eq_zero_iff] at hi
  unfold fileView VfsFile.entry
  rw [if_pos hi.1, hi.2]

/-- A name that is found is a stored name, and short. -/
theorem strlen_le_of_findFile (h : findFile files name = some i) : strlen name ≤ 31 := by
  have hi := (Fin.find?_eq_some_iff.1 h).1
  rw [Bool.and_eq_true, beq_iff_eq, strcmp_eq_zero_iff] at hi
  unfold strlen
  rw [← hi.2]
  exact (files i).strlen_name_le

/-- If the search finds nothing, no slot holds a file of that name. -/
theorem findFile_eq_none (h : findFile files name = none) {d : List UInt8} :
    fileView (files i) ≠ some (cstr name, d) := by
  have hi := Fin.find?_eq_none_iff.1 h i
  intro hv
  unfold fileView VfsFile.entry at hv
  split at hv
  · next hu =>
      simp only [Option.some.injEq, Prod.mk.injEq] at hv
      rw [hu, Bool.true_and, beq_eq_false_iff_ne, ne_eq, strcmp_eq_zero_iff] at hi
      exact hi hv.1
  · cases hv

/-- A search reads the name up to its NUL. -/
theorem vfsOpen_congr {name name' : List UInt8} (h : cstr name = cstr name') :
    vfsOpen files name = vfsOpen files name' := by
  unfold vfsOpen findFile
  refine congrArg Fin.find? (funext fun i => congrArg ((files i).used && ·) ?_)
  rw [Bool.eq_iff_iff, beq_iff_eq, beq_iff_eq, strcmp_eq_zero_iff, strcmp_eq_zero_iff, h]

/-- A search reads the names and the flags of the slots. -/
theorem findFile_congr {files' : Files} (h : ∀ i, (files' i).used = (files i).used ∧
    (files' i).name = (files i).name) (name : List UInt8) :
    findFile files' name = findFile files name := by
  unfold findFile
  refine congrArg Fin.find? (funext fun i => ?_)
  rw [(h i).1, (h i).2]

/-- `vfs_create` finds the name, or no free slot, or takes the first free slot. -/
theorem vfsCreate_cases (files : Files) (name : List UInt8) :
    (∃ i, findFile files name = some i ∧ vfsCreate files name = (files, 0)) ∨
      (findFile files name = none ∧ (∀ i, (files i).used = true) ∧
        vfsCreate files name = (files, -1)) ∨
      (findFile files name = none ∧ ∃ i, (files i).used = false ∧
        (∀ j, j < i → (files j).used = true) ∧
        vfsCreate files name = (Function.update files i ((files i).createAs name), 0)) := by
  unfold vfsCreate
  cases hf : findFile files name with
  | some i => exact .inl ⟨i, rfl, rfl⟩
  | none =>
      cases hfree : Fin.find? fun i => !(files i).used with
      | none =>
          refine .inr (.inl ⟨rfl, fun i => ?_, rfl⟩)
          simpa using Fin.find?_eq_none_iff.1 hfree i
      | some i =>
          obtain ⟨hi, hbelow⟩ := Fin.find?_eq_some_iff.1 hfree
          refine .inr (.inr ⟨rfl, i, by simpa using hi, fun j hj => ?_, rfl⟩)
          simpa using hbelow j hj

/-- `vfs_write` to a name that is not there does nothing and returns -1. -/
theorem vfsWrite_none (h : vfsOpen files name = none) (data : Bytes) (len : Nat) :
    vfsWrite files name data len = (files, -1) := by
  unfold vfsWrite
  rw [h]

/-- `vfs_write` to a file that is there writes its slot only. -/
theorem vfsWrite_some (h : vfsOpen files name = some i) (data : Bytes) (len : Nat) :
    vfsWrite files name data len =
      (Function.update files i ((files i).store data len), 0) := by
  unfold vfsWrite
  rw [h]

/-- A name that no slot can hold is created exactly when a slot is free. -/
theorem vfsCreate_long (hname : 31 < strlen name) :
    (vfsCreate files name).2 = 0 ↔ ∃ i, (files i).used = false := by
  rcases vfsCreate_cases files name with ⟨i, hf, -⟩ | ⟨-, hfull, he⟩ | ⟨-, i, hi, -, he⟩
  · have hshort := strlen_le_of_findFile hf
    omega
  · rw [he]
    refine iff_of_false (fun h => (by cases h)) fun ⟨i, hi⟩ => ?_
    rw [hfull i] at hi
    cases hi
  · rw [he]
    exact iff_of_true rfl ⟨i, hi⟩

end

end OnkenOS
