import OnkenOS.Lib.Run
import OnkenOS.Lib.SlotTable
import OnkenOS.Kernel.FsInit

/-!
# The names of the files

`vfs_create` compares the whole name it is given with the names in the table, and then stores the
first 31 bytes of it. A longer name is never found, so it is stored again and again, each time in
another slot. `vfs_names_unique_iff` says exactly when no two files get one name.
-/

namespace OnkenOS

open Machine SlotTable

/-- The calls that change the table, with names of any length. -/
inductive VfsChange where
  | create (name : List UInt8)
  | write (name : List UInt8) (data : Bytes) (len : Nat)
  | remove (name : List UInt8)

/-- The table after a call. -/
def vfsChange (files : Files) : VfsChange → Files
  | .create name => (vfsCreate files name).1
  | .write name data len => (vfsWrite files name data len).1
  | .remove name => (vfsRemove files name).1

/-- No two used slots hold the same name. -/
def NamesUnique (files : Files) : Prop :=
  ∀ i j, (files i).used = true → (files j).used = true →
    cstr (files i).name = cstr (files j).name → i = j

/-- The name fits in a slot, or the first 31 bytes of it name no file, or no slot is free. -/
def NewName (files : Files) : VfsChange → Prop
  | .create name => strlen name ≤ 31 ∨
      (∀ i, (files i).used = true → cstr (files i).name ≠ (cstr name).take 31) ∨
      ∀ i, (files i).used = true
  | .write .. | .remove _ => True

section
variable {files : Files} {name : List UInt8}

/-- The property of the library for slots with keys, with the names for keys. -/
theorem namesUnique_iff : NamesUnique files ↔ Distinct fileView files := by
  constructor
  · intro h i j k v w hi hj
    obtain ⟨hui, hei⟩ := fileView_eq_some.1 hi
    obtain ⟨huj, hej⟩ := fileView_eq_some.1 hj
    exact h i j hui huj ((congrArg Prod.fst hei).trans (congrArg Prod.fst hej).symm)
  · intro h i j hui huj hname
    have hi : fileView (files i) = some (cstr (files i).name, (files i).bytes) :=
      fileView_eq_some.2 ⟨hui, rfl⟩
    have hj : fileView (files j) = some (cstr (files i).name, (files j).bytes) :=
      fileView_eq_some.2 ⟨huj, Prod.ext hname.symm rfl⟩
    exact h i j _ _ _ hi hj

/-- Creating a file keeps the names unique exactly when it is new. -/
theorem namesUnique_create_iff (h : NamesUnique files) (name : List UInt8) :
    NamesUnique (vfsCreate files name).1 ↔ NewName files (.create name) := by
  rcases vfsCreate_cases files name with ⟨i, hf, he⟩ | ⟨-, hfull, he⟩ | ⟨hf, i, hfree, -, he⟩
  · rw [he]
    exact iff_of_true h (.inl (strlen_le_of_findFile hf))
  · rw [he]
    exact iff_of_true h (.inr (.inr hfull))
  · have hview : fileView (files i) = none := fileView_eq_none.2 hfree
    have hnew : fileView ((files i).createAs name) = some ((cstr name).take 31, []) :=
      fileView_eq_some.2 ⟨rfl, (files i).createAs_entry name⟩
    have hslot : ∀ k w, fileView (files i) = some (k, w) → k = (cstr name).take 31 := by
      intro k w hk
      rw [hview] at hk
      cases hk
    rw [he, namesUnique_iff, (namesUnique_iff.1 h).update_iff hnew hslot]
    constructor
    · intro hkey
      refine .inr (.inl fun j hj hname => ?_)
      have hji := hkey j (files j).bytes (fileView_eq_some.2 ⟨hj, Prod.ext hname rfl⟩)
      rw [hji, hfree] at hj
      cases hj
    · rintro (hshort | hcut | hfull) j w hj
      · rw [List.take_of_length_le hshort] at hj
        exact absurd hj (findFile_eq_none hf)
      · obtain ⟨hused, hentry⟩ := fileView_eq_some.1 hj
        exact absurd (congrArg Prod.fst hentry) (hcut j hused)
      · rw [hfull i] at hfree
        cases hfree

/-- `vfs_write` changes no name. -/
theorem namesUnique_write (h : NamesUnique files) (name : List UInt8) (data : Bytes) (len : Nat) :
    NamesUnique (vfsWrite files name data len).1 := by
  unfold vfsWrite
  cases hf : vfsOpen files name with
  | none => exact h
  | some i =>
      have hd := namesUnique_iff.1 h
      have hi := findFile_eq_some hf
      obtain ⟨hused, hentry⟩ := fileView_eq_some.1 hi
      have hnew : fileView ((files i).store data len) =
          some (cstr name, data.take (min len maxFileSize)) := by
        refine fileView_eq_some.2 ⟨hused, ?_⟩
        rw [VfsFile.store_entry, show cstr (files i).name = cstr name from congrArg Prod.fst hentry]
      rw [namesUnique_iff, hd.update_iff hnew]
      · exact fun j w hj => hd j i _ _ _ hj hi
      · intro k w hk
        rw [hi, Option.some.injEq, Prod.mk.injEq] at hk
        exact hk.1.symm

/-- `vfs_remove` frees a slot, so a name less can collide. -/
theorem namesUnique_remove (h : NamesUnique files) (name : List UInt8) :
    NamesUnique (vfsRemove files name).1 := by
  unfold vfsRemove
  cases findFile files name with
  | none => exact h
  | some i =>
      have hfree : fileView { files i with used := false } = none := fileView_eq_none.2 rfl
      exact namesUnique_iff.2 ((namesUnique_iff.1 h).update_none hfree)

/-- A call keeps the names unique exactly when it does not create a second file of a name. -/
theorem namesUnique_change_iff (files : Files) (call : VfsChange) (h : NamesUnique files) :
    NamesUnique (vfsChange files call) ↔ NewName files call := by
  cases call with
  | create name => exact namesUnique_create_iff h name
  | write name data len => exact iff_of_true (namesUnique_write h name data len) trivial
  | remove name => exact iff_of_true (namesUnique_remove h name) trivial

/-- A removed file is not found again: its slot is free, and no other slot has the name. -/
theorem vfsOpen_vfsRemove (h : NamesUnique files) (hok : (vfsRemove files name).2 = 0) :
    vfsOpen (vfsRemove files name).1 name = none := by
  unfold vfsRemove at hok ⊢
  cases hf : findFile files name with
  | none =>
      rw [hf] at hok
      cases hok
  | some i =>
      obtain ⟨hused, hentry⟩ := fileView_eq_some.1 (findFile_eq_some hf)
      cases hopen : vfsOpen (Function.update files i { files i with used := false }) name with
      | none => rfl
      | some j =>
          obtain ⟨hused', hentry'⟩ := fileView_eq_some.1 (findFile_eq_some hopen)
          rcases eq_or_ne j i with rfl | hne
          · rw [Function.update_self] at hused'
            cases hused'
          · rw [Function.update_of_ne hne] at hused' hentry'
            exact absurd (h j i hused' hused
              ((congrArg Prod.fst hentry').trans (congrArg Prod.fst hentry).symm)) hne

/-- A short name is created and written: it is new, or found, so no other slot gets it. -/
theorem namesUnique_add (h : NamesUnique files) {name : List UInt8} (hname : strlen name ≤ 31)
    (data : Bytes) (len : Nat) :
    NamesUnique (vfsWrite (vfsCreate files name).1 name data len).1 :=
  namesUnique_write ((namesUnique_create_iff h name).2 (.inl hname)) name data len

/-! ## The first files -/

/-- The files of the table have these names, in the first slots and in this order. -/
def HoldsNames (l : List (List UInt8)) (files : Files) : Prop :=
  ∀ i : Fin maxFiles, (fileView (files i)).map Prod.fst = l[i.val]?

section
variable {l : List (List UInt8)}

/-- The table of zeros holds no file. -/
theorem holdsNames_zero : HoldsNames [] Files.zero := fun _ => rfl

/-- A slot is used exactly when it is one of the first ones. -/
theorem HoldsNames.used_iff (h : HoldsNames l files) (i : Fin maxFiles) :
    (files i).used = true ↔ i.val < l.length := by
  rw [← not_iff_not, Nat.not_lt, ← List.getElem?_eq_none_iff, ← h i, Option.map_eq_none_iff,
    fileView_eq_none, Bool.not_eq_true]

/-- A slot that is used has its name, the one with the number of the slot. -/
theorem HoldsNames.name_eq (h : HoldsNames l files) {i : Fin maxFiles}
    (hi : (files i).used = true) : l[i.val]? = some (cstr (files i).name) := by
  rw [← h i, fileView, if_pos hi]
  rfl

/-- A name of the list is found, in whichever slot it stands. -/
theorem HoldsNames.exists_open (h : HoldsNames l files) (hl : l.length ≤ maxFiles)
    (hname : cstr name ∈ l) : ∃ i, vfsOpen files name = some i := by
  obtain ⟨k, hk⟩ := List.mem_iff_getElem?.1 hname
  have hlt := ((List.getElem?_eq_some_iff.1 hk).1).trans_le hl
  refine Option.ne_none_iff_exists'.1 fun hnone => ?_
  obtain ⟨⟨key, d⟩, hview, hkey⟩ := Option.map_eq_some_iff.1 ((h ⟨k, hlt⟩).trans hk)
  dsimp only at hkey
  subst hkey
  exact findFile_eq_none hnone hview

/-- If the names differ, no two slots have the same one. -/
theorem HoldsNames.namesUnique (h : HoldsNames l files) (hnodup : l.Nodup) :
    NamesUnique files := by
  intro i j hi hj hname
  have hlt := (h.used_iff i).1 hi
  have heq := h.name_eq hi
  rw [hname, ← h.name_eq hj] at heq
  exact Fin.ext ((List.getElem?_inj hlt hnodup).1 heq)

/-- A new short name comes behind the others: the first free slot is the one behind theirs. -/
theorem HoldsNames.create (h : HoldsNames l files) (hroom : l.length < maxFiles)
    (hshort : strlen name ≤ 31) (hnew : cstr name ∉ l) :
    HoldsNames (l ++ [cstr name]) (vfsCreate files name).1 := by
  rcases vfsCreate_cases files name with ⟨i, hf, -⟩ | ⟨-, hfull, -⟩ | ⟨-, i, hfree, hbelow, he⟩
  · obtain ⟨hused, hentry⟩ := fileView_eq_some.1 (findFile_eq_some hf)
    have hname := h.name_eq hused
    rw [show cstr (files i).name = cstr name from congrArg Prod.fst hentry] at hname
    exact absurd (List.mem_of_getElem? hname) hnew
  · exact absurd ((h.used_iff ⟨l.length, hroom⟩).1 (hfull _)) (Nat.lt_irrefl _)
  · -- the first free slot is the one behind the used ones
    have hi : i.val = l.length := by
      refine Nat.le_antisymm (Nat.le_of_not_lt fun hlt => ?_) (Nat.le_of_not_lt fun hlt => ?_)
      · have hused := hbelow ⟨l.length, hroom⟩ (Fin.lt_def.2 hlt)
        exact absurd ((h.used_iff _).1 hused) (Nat.lt_irrefl _)
      · rw [(h.used_iff i).2 hlt] at hfree
        cases hfree
    have hview : fileView ((files i).createAs name) = some (cstr name, []) := by
      refine fileView_eq_some.2 ⟨rfl, ?_⟩
      rw [VfsFile.createAs_entry, List.take_of_length_le hshort]
    rw [he]
    intro j
    dsimp only
    rcases eq_or_ne j i with rfl | hne
    · rw [Function.update_self, hview, hi, List.getElem?_append_right (Nat.le_refl _),
        Nat.sub_self]
      rfl
    · rw [Function.update_of_ne hne, h j]
      have hj : j.val ≠ l.length := fun hj => hne (Fin.ext (hj.trans hi.symm))
      rcases Nat.lt_or_gt_of_ne hj with hlt | hgt
      · rw [List.getElem?_append_left hlt]
      · rw [List.getElem?_append_right hgt.le, List.getElem?_eq_none hgt.le]
        exact (List.getElem?_eq_none (show 1 ≤ j.val - l.length by omega)).symm

/-- Writing changes no name, so the names stay where they are. -/
theorem HoldsNames.write (h : HoldsNames l files) (name : List UInt8) (data : Bytes)
    (len : Nat) : HoldsNames l (vfsWrite files name data len).1 := by
  unfold vfsWrite
  cases vfsOpen files name with
  | none => exact h
  | some i =>
      intro j
      dsimp only
      rcases eq_or_ne j i with rfl | hne
      · rw [Function.update_self, ← h j]
        unfold fileView VfsFile.store
        dsimp only
        split
        · rfl
        · rfl
      · rw [Function.update_of_ne hne, h j]

/-- A file that is created and then written is the next one of the list. -/
theorem HoldsNames.add (h : HoldsNames l files) (hroom : l.length < maxFiles)
    (hshort : strlen name ≤ 31) (hnew : cstr name ∉ l) (data : Bytes) (len : Nat) :
    HoldsNames (l ++ [cstr name]) (vfsWrite (vfsCreate files name).1 name data len).1 :=
  (h.create hroom hshort hnew).write name data len

/-- Writing through the pointer of a file is writing the file. -/
theorem createDemoBmp_eq_write (files : Files) (name : List UInt8) {w h : Nat}
    (hfits : 54 + totalPixelBytes w h ≤ maxFileSize) :
    createDemoBmp files name w h = (vfsWrite (vfsCreate files name).1 name
      (bytesOf (bmpBytes w h)) (bmpBytes w h).length).1 := by
  unfold createDemoBmp vfsWrite
  rw [if_neg (Nat.not_lt.2 hfits)]
  dsimp only
  cases vfsOpen (vfsCreate files name).1 name with
  | none => rfl
  | some i => rfl

/-- The demo picture is the next one of the list, if it fits in a file: it is created and written
like any other. -/
theorem HoldsNames.createDemoBmp (h : HoldsNames l files) (hroom : l.length < maxFiles)
    (hshort : strlen name ≤ 31) (hnew : cstr name ∉ l) {w hh : Nat}
    (hfits : 54 + totalPixelBytes w hh ≤ maxFileSize) :
    HoldsNames (l ++ [cstr name]) (OnkenOS.createDemoBmp files name w hh) := by
  rw [createDemoBmp_eq_write files name hfits]
  exact h.add hroom hshort hnew _ _

end

/-- The files `vfs_init` writes. -/
def firstNames : List (List UInt8) :=
  [str "readme.txt", str "limine.conf", str "Makefile", str "hello.c", str "notes.txt",
    str "sunset.bmp", str "logo.png"]

/-- What `vfs_init` leaves in the table: its files, in the order in which it writes them. -/
theorem holdsNames_vfsInit (logoPng : List UInt8) : HoldsNames firstNames (vfsInit logoPng) := by
  unfold vfsInit addText
  refine HoldsNames.add (l := firstNames.take 6) ?_ (by decide) (by decide) (by decide) _ _
  refine HoldsNames.createDemoBmp (l := firstNames.take 5) ?_ (by decide) (by decide)
    (by decide) (by decide)
  refine HoldsNames.add (l := firstNames.take 4) ?_ (by decide) (by decide) (by decide) _ _
  refine HoldsNames.add (l := firstNames.take 3) ?_ (by decide) (by decide) (by decide) _ _
  refine HoldsNames.add (l := firstNames.take 2) ?_ (by decide) (by decide) (by decide) _ _
  refine HoldsNames.add (l := firstNames.take 1) ?_ (by decide) (by decide) (by decide) _ _
  exact HoldsNames.add (l := []) holdsNames_zero (by decide) (by decide) (by decide) _ _

/-- The names of the first files differ. -/
theorem namesUnique_vfsInit (logoPng : List UInt8) : NamesUnique (vfsInit logoPng) :=
  (holdsNames_vfsInit logoPng).namesUnique (by decide)

/-- From the first files on, no two files ever get one name exactly when every name that is created
is new; and then a file that is removed is gone. `vfs_create` compares the whole name with the
stored ones and stores 31 characters of it, so a longer name is never found again, and is stored
again. -/
theorem vfs_names_unique_iff (logoPng : List UInt8) (calls : List VfsChange) :
    (RunOk vfsChange (fun files call => NamesUnique (vfsChange files call)) (vfsInit logoPng)
        calls ↔
      RunOk vfsChange NewName (vfsInit logoPng) calls) ∧
    (RunOk vfsChange NewName (vfsInit logoPng) calls →
      NamesUnique (run vfsChange (vfsInit logoPng) calls) ∧
        ∀ name, (vfsRemove (run vfsChange (vfsInit logoPng) calls) name).2 = 0 →
          vfsOpen (vfsRemove (run vfsChange (vfsInit logoPng) calls) name).1 name = none) := by
  have hinit := namesUnique_vfsInit logoPng
  refine ⟨RunOk_keeps_iff namesUnique_change_iff calls hinit, fun hok => ?_⟩
  have hrun : NamesUnique (run vfsChange (vfsInit logoPng) calls) :=
    run_invariant_of_ok NamesUnique
      (fun files call h hnew => (namesUnique_change_iff files call h).2 hnew) calls hinit hok
  exact ⟨hrun, fun _ => vfsOpen_vfsRemove hrun⟩

/-- A run of the theorem: a file is created, removed, and gone. -/
theorem vfs_names_unique_touch :
    (vfsRemove (run vfsChange (vfsInit []) [.create (str "a.txt")]) (str "a.txt")).2 = 0 →
      vfsOpen (vfsRemove (run vfsChange (vfsInit []) [.create (str "a.txt")]) (str "a.txt")).1
        (str "a.txt") = none :=
  ((vfs_names_unique_iff [] [.create (str "a.txt")]).2
    ⟨.inl (by decide), trivial⟩).2 (str "a.txt")

/-! ## A long name, created twice -/

/-- Only slots below `n` are used. -/
def UsedBelow (n : Nat) (files : Files) : Prop := ∀ i, (files i).used = true → i.val < n

/-- `vfs_create` takes the first free slot, so at most one slot more is used. -/
theorem UsedBelow.create {n : Nat} (h : UsedBelow n files) (hn : n < maxFiles)
    (name : List UInt8) : UsedBelow (n + 1) (vfsCreate files name).1 := by
  have hweak : UsedBelow (n + 1) files := fun i hi => Nat.lt_succ_of_lt (h i hi)
  rcases vfsCreate_cases files name with ⟨i, -, he⟩ | ⟨-, -, he⟩ | ⟨-, i, -, hbelow, he⟩
  · rw [he]
    exact hweak
  · rw [he]
    exact hweak
  · rw [he]
    intro j hj
    rcases eq_or_ne j i with rfl | hne
    · -- the first free slot is not above slot `n`, which is free
      by_contra hlt
      have hused := h ⟨n, hn⟩ (hbelow ⟨n, hn⟩ (Fin.lt_def.2 (by dsimp only; omega)))
      exact absurd hused (Nat.lt_irrefl n)
    · dsimp only at hj
      rw [Function.update_of_ne hne] at hj
      exact hweak j hj

/-- `vfs_write` takes no slot. -/
theorem UsedBelow.write {n : Nat} (h : UsedBelow n files) (name : List UInt8) (data : Bytes)
    (len : Nat) : UsedBelow n (vfsWrite files name data len).1 := by
  unfold vfsWrite
  cases hf : vfsOpen files name with
  | none => exact h
  | some i =>
      intro j hj
      rcases eq_or_ne j i with rfl | hne
      · exact h j (fileView_eq_some.1 (findFile_eq_some hf)).1
      · dsimp only at hj
        rw [Function.update_of_ne hne] at hj
        exact h j hj

/-- The slots from `n` on are free. -/
theorem UsedBelow.free {n : Nat} (h : UsedBelow n files) {i : Fin maxFiles} (hi : n ≤ i.val) :
    (files i).used = false := by
  cases hused : (files i).used with
  | false => rfl
  | true => exact absurd (h i hused) (Nat.not_lt.2 hi)

/-- `vfs_init` leaves most slots free. -/
theorem usedBelow_vfsInit (logoPng : List UInt8) : UsedBelow 7 (vfsInit logoPng) :=
  fun i hi => ((holdsNames_vfsInit logoPng).used_iff i).1 hi

/-- A name that does not fit in a slot is created twice, if there is room. -/
theorem not_namesUnique_create_twice {n : Nat} (hused : UsedBelow n files) (hn : n + 1 < maxFiles)
    {name : List UInt8} (hlong : 31 < strlen name)
    (hfirst : NamesUnique (vfsCreate files name).1) :
    ¬ NamesUnique (vfsCreate (vfsCreate files name).1 name).1 := by
  have hused' := hused.create (by omega) name
  rcases vfsCreate_cases files name with ⟨i, hf, -⟩ | ⟨-, hfull, -⟩ | ⟨-, i, -, -, he⟩
  · have hshort := strlen_le_of_findFile hf
    omega
  · have hlast := hused ⟨n, by omega⟩ (hfull ⟨n, by omega⟩)
    exact absurd hlast (Nat.lt_irrefl n)
  · rw [namesUnique_create_iff hfirst]
    rintro (hshort | hcut | hfull)
    · omega
    · rw [he] at hcut
      refine hcut i ?_ ?_
      · dsimp only
        rw [Function.update_self]
        rfl
      · dsimp only
        rw [Function.update_self]
        exact congrArg Prod.fst ((files i).createAs_entry name)
    · have hlast := hused' ⟨n + 1, hn⟩ (hfull ⟨n + 1, hn⟩)
      exact absurd hlast (Nat.lt_irrefl (n + 1))

/-- A name of 32 bytes, created twice, is the name of two files. -/
theorem vfs_names_duplicate :
    ¬ ∀ (logoPng : List UInt8) (calls : List VfsChange),
      NamesUnique (run vfsChange (vfsInit logoPng) calls) := by
  intro h
  have hfirst := h [] [.create (List.replicate 32 97)]
  have hsecond := h [] [.create (List.replicate 32 97), .create (List.replicate 32 97)]
  have hused := usedBelow_vfsInit []
  generalize vfsInit [] = files at hfirst hsecond hused
  exact not_namesUnique_create_twice hused (by decide) (by decide) hfirst hsecond

end

end OnkenOS
