import OnkenOS.Kernel.FsNames

/-!
# Storing a file

`vfs_create` and `vfs_write`, one after the other, store the data under a name exactly when the
name fits in a slot and is there or finds a free slot (`stored_create_write_iff`). A report of
`vfs_create` says less: it is also success for a name that no slot can hold
(`vfs_created_opens_iff`).
-/

namespace OnkenOS

open Machine

/-- The name fits in a slot, and has one or finds a free one. -/
def Storable (files : Files) (name : List UInt8) : Prop :=
  strlen name ≤ 31 ∧ ∃ i, vfsOpen files name = some i ∨ (files i).used = false

/-- `name` is now the name of a file that holds `d`, and every other file is as it was. -/
def Stored (files files' : Files) (name d : List UInt8) : Prop :=
  ∃ i, vfsOpen files' name = some i ∧ (files' i).bytes = d ∧ ∀ j, j ≠ i → files' j = files j

section
variable {files : Files} {name : List UInt8} {i : Fin maxFiles}

/-- Whether a name can be stored depends on the string only, not on what is behind its NUL. -/
theorem Storable.congr {name' : List UInt8} (h : Storable files name)
    (hname : cstr name = cstr name') : Storable files name' := by
  obtain ⟨hlen, i, hi⟩ := h
  refine ⟨?_, i, ?_⟩
  · unfold strlen at hlen ⊢
    rw [← hname]
    exact hlen
  · rw [← vfsOpen_congr hname]
    exact hi

/-- A new file is found under its name, as the name is not cut. -/
theorem vfsOpen_createAs (hname : strlen name ≤ 31) (hf : findFile files name = none) :
    vfsOpen (Function.update files i ((files i).createAs name)) name = some i := by
  have hcut : cstr ((files i).createAs name).name = cstr name := by
    rw [show cstr ((files i).createAs name).name = (cstr name).take 31 from
      congrArg Prod.fst ((files i).createAs_entry name)]
    exact List.take_of_length_le hname
  change findFile (Function.update files i ((files i).createAs name)) name = some i
  refine Fin.find?_eq_some_iff.2 ⟨?_, fun j hj => ?_⟩
  · rw [Function.update_self, Bool.and_eq_true, beq_iff_eq, strcmp_eq_zero_iff]
    exact ⟨rfl, hcut⟩
  · rw [Function.update_of_ne (Fin.ne_of_lt hj)]
    exact Fin.find?_eq_none_iff.1 hf j

/-- A storable name has a slot after `vfs_create`, which touches no other one. -/
theorem vfsCreate_storable (h : Storable files name) :
    ∃ i, vfsOpen (vfsCreate files name).1 name = some i ∧
      ∀ j, j ≠ i → (vfsCreate files name).1 j = files j := by
  obtain ⟨hname, k, hk⟩ := h
  rcases vfsCreate_cases files name with ⟨i, hf, he⟩ | ⟨hf, hfull, -⟩ | ⟨hf, i, -, -, he⟩
  · rw [he]
    exact ⟨i, hf, fun _ _ => rfl⟩
  · rcases hk with hopen | hfree
    · rw [vfsOpen, hf] at hopen
      cases hopen
    · rw [hfull k] at hfree
      cases hfree
  · rw [he]
    exact ⟨i, vfsOpen_createAs hname hf, fun j hj => Function.update_of_ne hj _ _⟩

/-- Any other name has none, before and after: it is too long, or there is no slot. -/
theorem vfsCreate_not_storable (h : ¬ Storable files name) :
    vfsOpen (vfsCreate files name).1 name = none := by
  cases hopen : vfsOpen (vfsCreate files name).1 name with
  | none => rfl
  | some k =>
      have hname := strlen_le_of_findFile hopen
      rcases vfsCreate_cases files name with ⟨i, hf, -⟩ | ⟨hf, -, he⟩ | ⟨-, i, hfree, -, -⟩
      · exact absurd ⟨hname, i, .inl hf⟩ h
      · rw [he, vfsOpen, hf] at hopen
        cases hopen
      · exact absurd ⟨hname, i, .inr hfree⟩ h

/-- A name that is created and fits is storable: a slot had it, or was free. -/
theorem storable_of_created (hname : strlen name ≤ 31) (hr : (vfsCreate files name).2 = 0) :
    Storable files name := by
  rcases vfsCreate_cases files name with ⟨i, hf, -⟩ | ⟨-, -, he⟩ | ⟨-, i, hi, -, -⟩
  · exact ⟨hname, i, .inl hf⟩
  · rw [he] at hr
    cases hr
  · exact ⟨hname, i, .inr hi⟩

/-- A name that is created though no slot is free is there already, and short. -/
theorem strlen_le_of_created (hr : (vfsCreate files name).2 = 0)
    (hok : strlen name ≤ 31 ∨ ∀ i, (files i).used = true) : strlen name ≤ 31 := by
  by_contra hlong
  obtain ⟨i, hfree⟩ := (vfsCreate_long (Nat.lt_of_not_le hlong)).1 hr
  rw [hok.resolve_left hlong i] at hfree
  cases hfree

/-- A name is not created only if it has no slot and none is free. -/
theorem full_of_not_created (hr : (vfsCreate files name).2 ≠ 0) (i : Fin maxFiles) :
    (files i).used = true := by
  rcases vfsCreate_cases files name with ⟨_, -, he⟩ | ⟨-, hfull, -⟩ | ⟨-, _, -, -, he⟩
  · exact absurd (congrArg Prod.snd he) hr
  · exact hfull i
  · exact absurd (congrArg Prod.snd he) hr

/-- A file that is there is not created again, so asking first makes no difference. -/
theorem create_if_missing (files : Files) (name : List UInt8) :
    (if (vfsOpen files name).isNone then (vfsCreate files name).1 else files) =
      (vfsCreate files name).1 := by
  rcases vfsCreate_cases files name with ⟨i, hf, he⟩ | ⟨hf, -, -⟩ | ⟨hf, -, -, -, -⟩
  · rw [he, ite_self]
  · rw [vfsOpen, hf]
    rfl
  · rw [vfsOpen, hf]
    rfl

/-- A new name takes a free slot, so the table changes. -/
theorem vfsCreate_ne (hopen : vfsOpen files name = none) (hfree : (files i).used = false) :
    (vfsCreate files name).1 ≠ files := by
  rcases vfsCreate_cases files name with ⟨j, hf, -⟩ | ⟨-, hfull, -⟩ | ⟨-, j, hj, -, he⟩
  · rw [vfsOpen, hf] at hopen
    cases hopen
  · rw [hfull i] at hfree
    cases hfree
  · intro heq
    have hused := congrArg VfsFile.used (congrFun heq j)
    rw [he, hj] at hused
    dsimp only at hused
    rw [Function.update_self] at hused
    cases hused

/-- Creating and writing stores the data, cut to the size of a file, exactly under a storable
name. -/
theorem stored_create_write_iff (files : Files) (name : List UInt8) (data : Bytes) (len : Nat) :
    Stored files (vfsWrite (vfsCreate files name).1 name data len).1 name
      (data.take (min len maxFileSize)) ↔ Storable files name := by
  constructor
  · rintro ⟨i, hopen, -, -⟩
    by_contra hnot
    have hnone := vfsCreate_not_storable hnot
    rw [vfsWrite_none hnone, hnone] at hopen
    cases hopen
  · intro h
    obtain ⟨i, hopen, hother⟩ := vfsCreate_storable h
    rw [vfsWrite_some hopen]
    refine ⟨i, ?_, ?_, fun j hj => ?_⟩
    · rw [vfsOpen, ← hopen]
      refine findFile_congr (fun j => ?_) name
      dsimp only
      rcases eq_or_ne j i with rfl | hne
      · rw [Function.update_self]
        exact ⟨rfl, rfl⟩
      · rw [Function.update_of_ne hne]
        exact ⟨rfl, rfl⟩
    · dsimp only
      rw [Function.update_self]
      exact congrArg Prod.snd (VfsFile.store_entry _ data len)
    · dsimp only
      rw [Function.update_of_ne hj]
      exact hother j hj

/-- A file is still there when another one is created. -/
theorem vfsCreate_used (hused : (files i).used = true) (name : List UInt8) :
    (vfsCreate files name).1 i = files i := by
  rcases vfsCreate_cases files name with ⟨-, -, he⟩ | ⟨-, -, he⟩ | ⟨-, k, hfree, -, he⟩
  · rw [he]
  · rw [he]
  · rw [he]
    refine Function.update_of_ne ?_ _ _
    rintro rfl
    rw [hused] at hfree
    cases hfree

/-! ## A created file can be opened -/

/-- If `vfs_create` reports success then `vfs_open` finds the file, and `vfs_write` of data that
fits reports success. -/
def CreatedOpens (files : Files) (name : List UInt8) : Prop :=
  (vfsCreate files name).2 = 0 →
    (∃ i, vfsOpen (vfsCreate files name).1 name = some i) ∧
      ∀ (data : Bytes) (len : Nat), len ≤ maxFileSize →
        (vfsWrite (vfsCreate files name).1 name data len).2 = 0

/-- What is found is short, whatever was created: a longer name is stored cut, and is not equal to
its beginning. -/
theorem CreatedOpens.strlen_le (h : CreatedOpens files name)
    (hr : (vfsCreate files name).2 = 0) : strlen name ≤ 31 := by
  obtain ⟨⟨i, hopen⟩, -⟩ := h hr
  exact strlen_le_of_findFile hopen

end

/-- For every state of the table and every name, `vfs_create` reports a file that can be opened and
written, exactly if the name fits in a slot or no slot is free: a longer one is stored cut, and the
whole name is not found. -/
theorem vfs_created_opens_iff (files : Files) (name : List UInt8) :
    CreatedOpens files name ↔ strlen name ≤ 31 ∨ ∀ i, (files i).used = true := by
  constructor
  · intro h
    by_cases hr : (vfsCreate files name).2 = 0
    · exact .inl (h.strlen_le hr)
    · exact .inr (full_of_not_created hr)
  · intro hok hr
    have hshort := strlen_le_of_created hr hok
    obtain ⟨i, hopen, -⟩ := vfsCreate_storable (storable_of_created hshort hr)
    refine ⟨⟨i, hopen⟩, fun data len _ => ?_⟩
    rw [vfsWrite_some hopen]

/-- A name of 32 bytes is created and then not found. -/
theorem vfs_created_not_found :
    ¬ ∀ (logoPng : List UInt8) (calls : List VfsChange) (name : List UInt8),
      CreatedOpens (run vfsChange (vfsInit logoPng) calls) name := by
  intro h
  have hopens := h [] [] (List.replicate 32 97)
  have hused := usedBelow_vfsInit []
  rw [run_nil] at hopens
  generalize vfsInit [] = files at hopens hused
  have hfree : (files 7).used = false := hused.free (by decide)
  have hshort := hopens.strlen_le ((vfsCreate_long (by decide)).2 ⟨7, hfree⟩)
  exact absurd hshort (by decide)

end OnkenOS
