import OnkenOS.Apps.Yano
import OnkenOS.Kernel.FsNames

/-!
# Editing and saving a file

Launching `yano` on a file, typing, and Ctrl+S. The editor loads what fits of the first file with
the name, and an empty name makes it a new text in `new.txt`; saving writes the whole buffer back.
`yano_saves_iff` says exactly when the file ends with the keys applied to what it held and no other
file changes.
-/

namespace OnkenOS

open Machine Capped

/-! ## The session -/

/-- `yano_launch(args)`, the keys, Ctrl+S. -/
def editSession (s : Editor) (args : Option (List UInt8)) (keys : List UInt8) : Editor :=
  yanoHandleKey (run (fun s c => yanoHandleKey s false c) (yanoLaunch s args) keys) true 115

/-- The name `yano` works on when it is launched on slot `f`. -/
def workingName (files : Files) (f : Fin maxFiles) : List UInt8 :=
  if strlen (files f).name > 0 then (files f).name else str "new.txt"

/-- The slot with that name, if any. -/
def workingFile (files : Files) (f : Fin maxFiles) : Option (Fin maxFiles) :=
  vfsOpen files (workingName files f)

/-- The text it starts with. -/
def loadedText (files : Files) (f : Fin maxFiles) : List UInt8 :=
  if strlen (files f).name > 0 then
    match workingFile files f with
    | some g => (files g).bytes.take (yanoBufSize - 1)
    | none => []
  else welcomeText

/-- The file in slot `f` ends with the keys applied to what it held; every other file stays. -/
def SavesEdits (s : Editor) (f : Fin maxFiles) (keys : List UInt8) : Prop :=
  fileView ((editSession s (some (s.files f).name) keys).files f) =
      some (cstr (s.files f).name, applyKeys (s.files f).bytes keys) ∧
    ∀ g, g ≠ f → (s.files g).used = true →
      fileView ((editSession s (some (s.files f).name) keys).files g) = fileView (s.files g)

/-- When nothing is lost. If `f` is the slot the editor works on: since the launch, or since the
text was empty, it has fitted in the buffer. If another slot is: the keys change neither text. -/
def SaveGuard (files : Files) (f : Fin maxFiles) (keys : List UInt8) : Prop :=
  match workingFile files f with
  | some g =>
    if g = f then RoomSinceEmpty (yanoBufSize - 1) (files f).bytes (keyEdits keys)
    else applyKeys (files f).bytes keys = (files f).bytes ∧
      run (capped (yanoBufSize - 1)) (loadedText files f) (keyEdits keys) = (files g).bytes
  | none => applyKeys (files f).bytes keys = (files f).bytes

section
variable {s : Editor} {files : Files} {f g : Fin maxFiles} {keys : List UInt8}

/-- Keys without Ctrl are typed and touch nothing but the text. -/
theorem run_yanoHandleKey (keys : List UInt8) : ∀ s : Editor,
    run (fun s c => yanoHandleKey s false c) s keys =
      { s with yano := run Yano.typeKey s.yano keys } := by
  induction keys with
  | nil => exact fun _ => rfl
  | cons c keys ih => exact fun s => ih _

/-- Typing leaves the name of the file. -/
theorem typeKey_currentFilename (y : Yano) (c : UInt8) :
    (y.typeKey c).currentFilename = y.currentFilename := by
  unfold Yano.typeKey Yano.put
  repeat' split
  all_goals rfl

/-- So does any number of keys. -/
theorem run_typeKey_currentFilename (keys : List UInt8) : ∀ y : Yano,
    (run Yano.typeKey y keys).currentFilename = y.currentFilename := by
  induction keys with
  | nil => exact fun _ => rfl
  | cons c keys ih => exact fun y => (ih _).trans (typeKey_currentFilename y c)

/-- The working name of a file with a name is its own, so there is a file to open. -/
theorem exists_workingFile (hf : (files f).used = true) (hname : strlen (files f).name > 0) :
    ∃ g, workingFile files f = some g := by
  unfold workingFile workingName
  rw [if_pos hname]
  cases hopen : vfsOpen files (files f).name with
  | some g => exact ⟨g, rfl⟩
  | none => exact absurd (fileView_eq_some.2 ⟨hf, rfl⟩) (findFile_eq_none hopen)

/-- What `yano_launch` leaves: the buffer holds the working file's text, cut to the buffer, and the
name is the one it was found under. -/
theorem yanoLaunch_spec (hf : (s.files f).used = true) :
    (yanoLaunch s (some (s.files f).name)).files = s.files ∧
      (yanoLaunch s (some (s.files f).name)).yano.text = loadedText s.files f ∧
      cstr (yanoLaunch s (some (s.files f).name)).yano.currentFilename =
        cstr (workingName s.files f) := by
  by_cases hname : strlen (s.files f).name > 0
  · obtain ⟨g, hg⟩ := exists_workingFile hf hname
    have hshort : (cstr (s.files f).name).take 31 = cstr (s.files f).name :=
      List.take_of_length_le (s.files f).strlen_name_le
    have hcstr : cstr (cstr (s.files f).name) = cstr (s.files f).name :=
      cstr_of_zero_not_mem (zero_not_mem_cstr _)
    have hopen : vfsOpen s.files (cstr (s.files f).name) = some g := by
      rw [vfsOpen_congr hcstr, ← hg, workingFile, workingName, if_pos hname]
    obtain ⟨hcur, htext, hfiles⟩ := yanoLaunch_loads s (some (s.files f).name)
    simp only [launchedFile, launchedText, if_pos hname, hshort, hopen] at hcur htext hfiles
    refine ⟨hfiles.resolve_right (by simp), ?_, ?_⟩
    · simp only [htext, loadedText, if_pos hname, hg]
      rfl
    · rw [hcur, workingName, if_pos hname]
  · simp only [yanoLaunch, if_neg hname, loadedText, workingName, Yano.text_setTitle,
      Yano.currentFilename_setTitle]
    exact ⟨trivial, text_welcome _, cstr_welcome _⟩

/-- Creating and writing a file that is not there changes no slot that was used. -/
theorem view_create_write {name : List UInt8} (hopen : vfsOpen files name = none)
    (hg : (files g).used = true) (data : Bytes) (len : Nat) :
    fileView ((vfsWrite (vfsCreate files name).1 name data len).1 g) = fileView (files g) := by
  rcases vfsCreate_cases files name with ⟨i, hf, -⟩ | ⟨-, -, he⟩ | ⟨-, i, hfree, -, he⟩
  · rw [vfsOpen, hf] at hopen
    cases hopen
  · rw [he, vfsWrite_none hopen]
  · have hgi : g ≠ i := by
      rintro rfl
      rw [hfree] at hg
      cases hg
    rw [he]
    cases hj : vfsOpen (Function.update files i ((files i).createAs name)) name with
    | none =>
        rw [vfsWrite_none hj]
        exact congrArg fileView (Function.update_of_ne hgi _ _)
    | some j =>
        have hgj : g ≠ j := by
          rintro rfl
          have hview := findFile_eq_some hj
          rw [Function.update_of_ne hgi] at hview
          exact findFile_eq_none hopen hview
        rw [vfsWrite_some hj]
        dsimp only
        rw [Function.update_of_ne hgj, Function.update_of_ne hgi]

/-- Saving under a name that is not there creates the file first. -/
theorem save_files_none (hopen : vfsOpen s.files s.yano.currentFilename = none) :
    s.save.files = (vfsWrite (vfsCreate s.files s.yano.currentFilename).1 s.yano.currentFilename
      s.yano.buf s.yano.len).1 := by
  unfold Editor.save
  rw [hopen]

/-- Saving under a name that is there writes its slot only. -/
theorem save_files_some (hopen : vfsOpen s.files s.yano.currentFilename = some g) :
    s.save.files =
      Function.update s.files g ((s.files g).store s.yano.buf s.yano.len) := by
  unfold Editor.save
  rw [hopen]
  dsimp only
  rw [vfsWrite_some hopen]

/-- Ctrl+S stores the text in the slot of the name. -/
theorem save_view_self (hopen : vfsOpen s.files s.yano.currentFilename = some g)
    (hlen : s.yano.len ≤ maxFileSize) :
    fileView (s.save.files g) = some (cstr s.yano.currentFilename, s.yano.text) := by
  obtain ⟨hused, hentry⟩ := fileView_eq_some.1 (findFile_eq_some hopen)
  have hname : cstr (s.files g).name = cstr s.yano.currentFilename := congrArg Prod.fst hentry
  rw [save_files_some hopen, Function.update_self]
  refine fileView_eq_some.2 ⟨hused, ?_⟩
  rw [VfsFile.store_entry, Nat.min_eq_left hlen, hname]
  rfl

/-- Ctrl+S changes no other slot that was used: a new file takes a free one. -/
theorem save_view_other (hne : vfsOpen s.files s.yano.currentFilename ≠ some g)
    (hg : (s.files g).used = true) : fileView (s.save.files g) = fileView (s.files g) := by
  cases hopen : vfsOpen s.files s.yano.currentFilename with
  | none =>
      rw [save_files_none hopen]
      exact view_create_write hopen hg _ _
  | some i =>
      have hgi : g ≠ i := fun h => hne (h ▸ hopen)
      rw [save_files_some hopen, Function.update_of_ne hgi]

/-- What a launch loads is cut to the buffer, with room for the NUL. -/
theorem length_loadedText_le (files : Files) (f : Fin maxFiles) :
    (loadedText files f).length ≤ yanoBufSize - 1 := by
  unfold loadedText
  split
  · split
    · exact List.length_take_le _ _
    · exact Nat.zero_le _
  · decide

/-- The whole session, as Ctrl+S after the keys: typing touches nothing that saving depends on but
the text. -/
theorem editSession_eq (s : Editor) (args : Option (List UInt8)) (keys : List UInt8) :
    editSession s args keys = Editor.save { yanoLaunch s args with
      yano := run Yano.typeKey (yanoLaunch s args).yano keys } := by
  rw [editSession, run_yanoHandleKey]
  rfl

/-- What the session leaves in the slot the editor works on: the loaded text with the keys applied,
in a buffer with a capacity. -/
theorem editSession_view_self (hf : (s.files f).used = true)
    (hg : workingFile s.files f = some g) (keys : List UInt8) :
    fileView ((editSession s (some (s.files f).name) keys).files g) =
      some (cstr (workingName s.files f),
        run (capped (yanoBufSize - 1)) (loadedText s.files f) (keyEdits keys)) := by
  obtain ⟨hfiles, htext, hname⟩ := yanoLaunch_spec hf
  rw [editSession_eq]
  generalize yanoLaunch s (some (s.files f).name) = t at hfiles htext hname
  have htyped := text_typeKeys keys t.yano
  have hcur := run_typeKey_currentFilename keys t.yano
  have hlen : (run Yano.typeKey t.yano keys).len ≤ maxFileSize := by
    have hle := length_run_capped_le (length_loadedText_le s.files f) (keyEdits keys)
    rw [← htext, ← htyped, Yano.length_text] at hle
    exact hle.trans (by decide)
  have hopen : vfsOpen t.files (run Yano.typeKey t.yano keys).currentFilename = some g := by
    rw [hcur, hfiles, vfsOpen_congr hname]
    exact hg
  have hview := save_view_self (s := { t with yano := run Yano.typeKey t.yano keys }) hopen hlen
  dsimp only at hview
  rw [hview, htyped, htext, hcur, hname]

/-- What the session leaves in any other slot that was used: what was there, as saving writes the
working slot only. -/
theorem editSession_view_other (hf : (s.files f).used = true) (hg : (s.files g).used = true)
    (hne : workingFile s.files f ≠ some g) (keys : List UInt8) :
    fileView ((editSession s (some (s.files f).name) keys).files g) = fileView (s.files g) := by
  obtain ⟨hfiles, -, hname⟩ := yanoLaunch_spec hf
  rw [editSession_eq]
  generalize yanoLaunch s (some (s.files f).name) = t at hfiles hname
  have hcur := run_typeKey_currentFilename keys t.yano
  have hopen : vfsOpen t.files (run Yano.typeKey t.yano keys).currentFilename ≠ some g := by
    rw [hcur, hfiles, vfsOpen_congr hname]
    exact hne
  have hg' : (t.files g).used = true := by
    rw [hfiles]
    exact hg
  have hview := save_view_other (s := { t with yano := run Yano.typeKey t.yano keys }) hopen hg'
  dsimp only at hview
  rw [hview, hfiles]

/-- When the editor works on `f` itself, `f` has a name and is loaded as far as it fits. -/
theorem loadedText_self (hw : workingFile files f = some f) :
    loadedText files f = (files f).bytes.take (yanoBufSize - 1) ∧
      cstr (workingName files f) = cstr (files f).name := by
  obtain ⟨-, hentry⟩ := fileView_eq_some.1 (findFile_eq_some hw)
  have hname : cstr (files f).name = cstr (workingName files f) := congrArg Prod.fst hentry
  have hpos : strlen (files f).name > 0 := by
    by_contra hzero
    rw [workingName, if_neg hzero] at hname
    exact hzero (show 0 < (cstr (files f).name).length from hname ▸ by decide)
  refine ⟨?_, hname.symm⟩
  unfold loadedText
  rw [if_pos hpos, hw]

/-- Under its own name a used slot holds exactly its contents. -/
theorem entry_eq_iff (hf : (files f).used = true) {name d : List UInt8}
    (hname : name = cstr (files f).name) :
    fileView (files f) = some (name, d) ↔ d = (files f).bytes := by
  rw [fileView_eq_some, hf, and_iff_right rfl, VfsFile.entry, Prod.mk.injEq, hname,
    and_iff_right rfl, eq_comm]

/-- **When editing and saving loses nothing.** `yano` cuts the name and the text of a file to its
own buffers. If it still works on the slot `f`, the text must have fitted ever since it was loaded,
or since it was empty; if the cut name is that of another slot, or of none, the keys must not change
a thing. -/
theorem yano_saves_iff (hf : (s.files f).used = true) (keys : List UInt8) :
    SavesEdits s f keys ↔ SaveGuard s.files f keys := by
  unfold SavesEdits SaveGuard
  cases hw : workingFile s.files f with
  | none =>
      have hother : ∀ g, (s.files g).used = true →
          fileView ((editSession s (some (s.files f).name) keys).files g) = fileView (s.files g) :=
        fun g hg => editSession_view_other hf hg (by rw [hw]; exact nofun) keys
      rw [hother f hf, entry_eq_iff hf rfl]
      exact and_iff_left fun g _ hg => hother g hg
  | some g =>
      have hother : ∀ g', g' ≠ g → (s.files g').used = true →
          fileView ((editSession s (some (s.files f).name) keys).files g') =
            fileView (s.files g') := by
        intro g' hne hg'
        refine editSession_view_other hf hg' ?_ keys
        rw [hw]
        exact fun he => hne (Option.some.inj he).symm
      have hself := editSession_view_self hf hw keys
      dsimp only
      rcases eq_or_ne g f with rfl | hne
      · obtain ⟨hload, hname⟩ := loadedText_self hw
        rw [if_pos rfl, hself, hload, hname, Option.some.injEq, Prod.mk.injEq,
          and_iff_right rfl, applyKeys, run_capped_eq_iff]
        exact and_iff_left hother
      · obtain ⟨hused, hentry⟩ := fileView_eq_some.1 (findFile_eq_some hw)
        rw [if_neg hne, hother f hne.symm hf, entry_eq_iff hf rfl]
        refine and_congr_right fun _ => ⟨fun h => ?_, fun h g' hg' hused' => ?_⟩
        · have hg := h g hne hused
          rw [hself, eq_comm, entry_eq_iff hused (congrArg Prod.fst hentry).symm] at hg
          exact hg
        · rcases eq_or_ne g' g with rfl | hg
          · rw [hself, eq_comm, entry_eq_iff hused (congrArg Prod.fst hentry).symm]
            exact h
          · exact hother g' hg hused'

/-- Two keys typed into an empty file: they are what the file holds after Ctrl+S. -/
theorem yano_saves_typed :
    SavesEdits ⟨⟨fun _ => 0, 0, List.replicate 32 0, [], rfl, rfl⟩,
      Function.update Files.zero 0 (VfsFile.zero.createAs (str "a.txt")), false⟩ 0 (str "hi") := by
  refine (yano_saves_iff ?_ (str "hi")).2 ?_
  · rfl
  · have hw : workingFile (Function.update Files.zero 0 (VfsFile.zero.createAs (str "a.txt"))) 0 =
        some 0 := by
      unfold workingFile workingName vfsOpen findFile
      refine Fin.find?_eq_some_iff.2 ⟨?_, fun j hj => absurd hj (Fin.not_lt_zero j)⟩
      rw [Function.update_self]
      decide
    unfold SaveGuard
    rw [hw]
    exact ⟨[], keyEdits (str "hi"), rfl, .inl ⟨rfl, Nat.zero_le _⟩, by decide, by decide, trivial⟩

/-! ## A file that does not fit -/

/-- A name that fits in a slot can be opened after `vfs_create`, if a slot is free. -/
theorem exists_open_create {name : List UInt8} (hname : strlen name ≤ 31)
    (hfree : ∃ i, (files i).used = false) :
    ∃ i, vfsOpen (vfsCreate files name).1 name = some i := by
  cases hopen : vfsOpen (vfsCreate files name).1 name with
  | some i => exact ⟨i, rfl⟩
  | none =>
      rcases vfsCreate_cases files name with ⟨i, hf, he⟩ | ⟨-, hfull, -⟩ | ⟨-, i, -, -, he⟩
      · rw [he, vfsOpen, hf] at hopen
        cases hopen
      · obtain ⟨i, hi⟩ := hfree
        rw [hfull i] at hi
        cases hi
      · rw [he] at hopen
        have hentry := (files i).createAs_entry name
        rw [List.take_of_length_le hname] at hentry
        refine absurd ?_ (findFile_eq_none (i := i) (d := []) hopen)
        dsimp only
        rw [Function.update_self]
        exact fileView_eq_some.2 ⟨rfl, hentry⟩

/-- Launching and saving at once cuts a file to the size of the buffer. -/
theorem not_savesEdits_big (hunique : NamesUnique s.files) (hf : (s.files f).used = true)
    (hname : strlen (s.files f).name > 0) (hbig : yanoBufSize ≤ (s.files f).size) :
    ¬ SavesEdits s f [] := by
  intro hsaves
  obtain ⟨g, hg⟩ := exists_workingFile hf hname
  obtain ⟨hused, hentry⟩ := fileView_eq_some.1 (findFile_eq_some hg)
  rw [workingName, if_pos hname] at hentry
  have hgf : g = f := hunique g f hused hf (congrArg Prod.fst hentry)
  subst hgf
  have hview := hsaves.1
  rw [editSession_view_self hf hg, Option.some.injEq, Prod.mk.injEq] at hview
  have hlen := congrArg List.length hview.2
  have hle := length_run_capped_le (length_loadedText_le s.files g) (keyEdits [])
  rw [hlen, applyKeys, keyEdits, List.filterMap_nil, run_nil, VfsFile.length_bytes] at hle
  exact absurd (hbig.trans hle) (by decide)

/-- A file of 5000 bytes is cut to 4095 when it is loaded, so saving it without a key loses the
rest. -/
theorem yano_save_truncates :
    ¬ ∀ (logoPng : List UInt8) (calls : List VfsChange) (y : Yano) (f : Fin maxFiles)
      (keys : List UInt8), (run vfsChange (vfsInit logoPng) calls f).used = true →
      (applyKeys (run vfsChange (vfsInit logoPng) calls f).bytes keys).length ≤ maxFileSize →
      SavesEdits ⟨y, run vfsChange (vfsInit logoPng) calls, false⟩ f keys := by
  intro h
  have hsaves := fun f => h [] [.create (str "big.txt"), .write (str "big.txt") (fun _ => 97) 5000]
    ⟨fun _ => 0, 0, List.replicate 32 0, [], rfl, rfl⟩ f []
  have hshort : strlen (str "big.txt") ≤ 31 := by decide
  have hfree : ∃ i, (vfsInit [] i).used = false := ⟨7, (usedBelow_vfsInit []).free (by decide)⟩
  have hunique := namesUnique_add (namesUnique_vfsInit []) hshort (fun _ => 97) 5000
  simp only [run_cons, run_nil, vfsChange] at hsaves
  generalize vfsInit [] = files at hsaves hfree hunique
  obtain ⟨f, hopen⟩ := exists_open_create hshort hfree
  obtain ⟨hused, hentry⟩ := fileView_eq_some.1 (findFile_eq_some hopen)
  rw [vfsWrite_some hopen] at hsaves hunique
  generalize (vfsCreate files (str "big.txt")).1 = files₁ at hsaves hunique hused hentry
  dsimp only at hsaves hunique
  have hslot : Function.update files₁ f ((files₁ f).store (fun _ => 97) 5000) f =
      (files₁ f).store (fun _ => 97) 5000 := Function.update_self ..
  have hf : (Function.update files₁ f ((files₁ f).store (fun _ => 97) 5000) f).used = true := by
    rw [hslot]
    exact hused
  have hsize : (Function.update files₁ f ((files₁ f).store (fun _ => 97) 5000) f).size = 5000 := by
    rw [hslot]
    rfl
  have hname :
      strlen (Function.update files₁ f ((files₁ f).store (fun _ => 97) 5000) f).name > 0 := by
    rw [hslot]
    have hcstr : cstr (files₁ f).name = cstr (str "big.txt") := congrArg Prod.fst hentry
    exact show 0 < (cstr (files₁ f).name).length from hcstr ▸ by decide
  refine not_savesEdits_big hunique hf hname (by rw [hsize]; decide) (hsaves f hf ?_)
  rw [applyKeys, keyEdits, List.filterMap_nil, run_nil, VfsFile.length_bytes, hsize]
  decide

end

end OnkenOS
