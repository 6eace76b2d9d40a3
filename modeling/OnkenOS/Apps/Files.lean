import OnkenOS.Kernel.App
import OnkenOS.Kernel.Format
import OnkenOS.Kernel.FsNames
import OnkenOS.Gui.Window

/-!
# The File Explorer

`files_draw` of `apps/files/files.c`, which paints the files, and the branch of `shell_loop` that
opens the file under a click.

Painting lists the used slots without gaps, 20 pixels each; a click takes its row for the number of
a slot. The two agree as long as no slot before is free, and the division that finds the row rounds
towards zero, so the 19 pixels above the list belong to row 0. `files_click_iff` is the exact
condition.
-/

namespace OnkenOS

open Slots

/-- A call of `fb_print`. -/
structure FbPrint where
  text : List UInt8
  x : BitVec 32
  y : BitVec 32
  fg : BitVec 32
  bg : BitVec 32

section
variable {δ : Type}

/-! ## Painting -/

/-- `file_lbl`. -/
def fileLbl (f : VfsFile) : List UInt8 :=
  (xsprintf (str "[FILE] %-12s (%3d B)") [.str f.name, .int (BitVec.ofNat 32 f.size)]).getD []

/-- `if (f) { print; sy += 20; }`, and the rest of the loop. -/
def fileRow (f : Option (Fin maxFiles)) (sy : BitVec 32)
    (rest : BitVec 32 → List (Fin maxFiles × BitVec 32)) : List (Fin maxFiles × BitVec 32) :=
  match f with
  | some f => (f, sy) :: rest (sy + 20)
  | none => rest sy

/-- The loop of `files_draw` over slot numbers: the files it prints, each with its `sy`. -/
def fileRows (files : Files) : List Nat → BitVec 32 → List (Fin maxFiles × BitVec 32)
  | [], _ => []
  | i :: is, sy => fileRow (vfsGetByIndex files i) sy (fileRows files is)

/-- What `files_draw` prints on every disk. -/
def filesHeadings (w : Window (List UInt8) δ) : List FbPrint :=
  [⟨str "System Drive (RAM Disk)", w.x + 20, w.y + 40, 0x882200, 0xC0C0C0⟩,
   ⟨str "Directories:", w.x + 20, w.y + 70, 0x882200, 0xC0C0C0⟩,
   ⟨str "[DIR]  system/", w.x + 20, w.y + 90, 0x0055AA, 0xC0C0C0⟩,
   ⟨str "[DIR]  apps/", w.x + 20, w.y + 110, 0x0055AA, 0xC0C0C0⟩,
   ⟨str "[DIR]  assets/", w.x + 20, w.y + 130, 0x0055AA, 0xC0C0C0⟩,
   ⟨str "Files:", w.x + 260, w.y + 70, 0x882200, 0xC0C0C0⟩]

/-- `files_draw`. -/
def filesDraw (files : Files) (w : Window (List UInt8) δ) : List FbPrint :=
  filesHeadings w ++ (fileRows files (List.range 64) (w.y + 90)).map fun (f, sy) =>
    ⟨fileLbl (files f), w.x + 260, sy, 0x222222, 0xC0C0C0⟩

/-! ## Clicking -/

/-- The application that opens a file of this name. -/
def openerName (name : List UInt8) : List UInt8 :=
  let flen := strlen name
  if flen ≥ 4 ∧ strcmp (name.drop (flen - 4)) (str ".bmp") = 0 then str "imageviewer"
  else str "yano"

/-- The File Explorer branch of the click handler in `shell_loop`. -/
def filesClick (registry : Registry) (files : Files) (activeW : Option (Window (List UInt8) δ))
    (mx my : Int) : Option Launch :=
  match activeW with
  | none => none
  | some w =>
    if w.closed = false ∧ strcmp w.title (str "File Explorer") = 0 then
      if w.x.toInt + 260 ≤ mx ∧ mx ≤ w.x.toInt + 580 then
        let fileIdx := (my - (w.y.toInt + 90)).tdiv 20
        if 0 ≤ fileIdx ∧ fileIdx < 64 then
          match vfsGetByIndex files fileIdx with
          | none => none
          | some f =>
            (appFind registry (openerName (files f).name)).map fun app =>
              ⟨app, some (files f).name⟩
        else none
      else none
    else none

/-! ## What the statement compares -/

/-- The name `files_draw` prints as its `k`-th entry. -/
def paintedName (files : Files) (w : Window (List UInt8) δ) (k : Nat) : Option (List UInt8) :=
  ((fileRows files (List.range 64) (w.y + 90))[k]?).map fun row => cstr (files row.1).name

/-- Row `k` of the list. -/
def InRow (w : Window (List UInt8) δ) (k : Nat) (my : Int) : Prop :=
  w.y.toInt + 90 + 20 * k ≤ my ∧ my < w.y.toInt + 90 + 20 * k + 20

/-- The call opens the file of this name in the editor or the viewer. -/
def Opens (launch : Option Launch) (name : List UInt8) : Prop :=
  ∃ app arg, launch = some ⟨app, some arg⟩ ∧
    (app.name = str "yano" ∨ app.name = str "imageviewer") ∧ cstr arg = name

/-- A click at this height opens the file painted on its row, and nothing where none is. -/
def ClickAgrees (files : Files) (w : Window (List UInt8) δ) (mx my : Int) : Prop :=
  (∀ k, InRow w k my →
    match paintedName files w k with
    | some name => Opens (filesClick shellRegistry files (some w) mx my) name
    | none => filesClick shellRegistry files (some w) mx my = none) ∧
  (my < w.y.toInt + 90 → filesClick shellRegistry files (some w) mx my = none)

/-- How many of the slots below `n` are used. -/
def usedBelow (files : Files) (n : Nat) : Nat :=
  Nat.count (fun i : Nat => (vfsGetByIndex files i).isSome = true) n

/-- When a click in row `k` opens what is painted there. If slot `k` is used: the used slot with `k`
used slots below it holds the same name. If it is free: no more than `k` slots are used. -/
def RowGuard (files : Files) (k : Nat) : Prop :=
  match vfsGetByIndex files k with
  | some f => ∃ g : Fin maxFiles, (files g).used = true ∧ usedBelow files g = k ∧
      cstr (files g).name = cstr (files f).name
  | none => usedBelow files maxFiles ≤ k

/-- Less than 20 pixels above the list, slot 0 has to be free. -/
def ClickGuard (files : Files) (w : Window (List UInt8) δ) (my : Int) : Prop :=
  (∀ k, InRow w k my → RowGuard files k) ∧
  (w.y.toInt + 70 < my → my < w.y.toInt + 90 → (files 0).used = false)

variable {files : Files} {w : Window (List UInt8) δ} {mx my : Int} {k : Nat} {f : Fin maxFiles}
  {name : List UInt8}

/-! ## What is painted -/

/-- An index that is a slot number shows that slot, if it is used. -/
theorem vfsGetByIndex_natCast {i : Nat} :
    vfsGetByIndex files i = some f ↔ f.val = i ∧ (files f).used = true := by
  unfold vfsGetByIndex
  split
  · next h =>
      dsimp only
      split
      · next hu =>
          rw [Option.some.injEq]
          constructor
          · rintro rfl
            exact ⟨by simp, hu⟩
          · rintro ⟨hf, -⟩
            exact Fin.ext (by simp [hf])
      · next hu =>
          refine ⟨fun h => (by cases h), fun ⟨hf, hused⟩ => absurd ?_ hu⟩
          rw [show (⟨(i : Int).toNat, by omega⟩ : Fin maxFiles) = f from Fin.ext (by simp [hf])]
          exact hused
  · next h =>
      refine ⟨fun h => (by cases h), fun ⟨hf, _⟩ => absurd ?_ h⟩
      have hlt := f.isLt
      omega

/-- The `k`-th entry is printed 20 pixels below the one before, and names the used slot with `k`
used slots below it. -/
theorem getElem?_fileRows (is : List Nat) : ∀ (sy : BitVec 32) (k : Nat),
    (fileRows files is sy)[k]? = ((is.filterMap fun i : Nat => vfsGetByIndex files i)[k]?).map
      fun f => (f, sy + BitVec.ofNat 32 (20 * k)) := by
  induction is with
  | nil =>
      intro sy k
      simp only [fileRows, List.filterMap_nil, List.getElem?_nil, Option.map_none]
  | cons i is ih =>
      intro sy k
      rw [fileRows, List.filterMap_cons]
      cases vfsGetByIndex files i with
      | none => exact ih sy k
      | some f =>
          cases k with
          | zero =>
              rw [Nat.mul_zero, BitVec.add_zero]
              rfl
          | succ k =>
              have hsy : sy + 20 + BitVec.ofNat 32 (20 * k) =
                  sy + BitVec.ofNat 32 (20 * (k + 1)) := by
                rw [Nat.mul_succ, BitVec.ofNat_add, BitVec.add_assoc,
                  BitVec.add_comm (BitVec.ofNat 32 (20 * k))]
                rfl
              rw [fileRow, List.getElem?_cons_succ, List.getElem?_cons_succ, ih, hsy]

/-- The text of the `k`-th entry begins with the name. -/
theorem fileLbl_eq (f : VfsFile) :
    fileLbl f = str "[FILE] " ++ (convStr ⟨12, false, true⟩ f.name ++
      (str " (" ++ (convInt ⟨3, false, false⟩ (BitVec.ofNat 32 f.size) ++ str " B)"))) := by
  have hout : xsprintf (str "[FILE] %-12s (%3d B)") [.str f.name, .int (BitVec.ofNat 32 f.size)] =
      some (str "[FILE] " ++ (convStr ⟨12, false, true⟩ f.name ++
        (str " (" ++ (convInt ⟨3, false, false⟩ (BitVec.ofNat 32 f.size) ++ str " B)")))) := rfl
  rw [fileLbl, hout, Option.getD_some]

/-- What is painted on row `k`: the used slot with `k` used slots below it. -/
theorem paintedName_eq_some : paintedName files w k = some name ↔
    ∃ g : Fin maxFiles, (files g).used = true ∧ usedBelow files g = k ∧
      cstr (files g).name = name := by
  unfold paintedName
  rw [getElem?_fileRows, Option.map_map, Option.map_eq_some_iff]
  constructor
  · rintro ⟨g, hg, hname⟩
    obtain ⟨i, -, hi, hcount⟩ := getElem?_filterMap_range.1 hg
    obtain ⟨rfl, hused⟩ := vfsGetByIndex_natCast.1 hi
    exact ⟨g, hused, hcount, hname⟩
  · rintro ⟨g, hused, hcount, hname⟩
    exact ⟨g, getElem?_filterMap_range.2 ⟨g, g.isLt, vfsGetByIndex_natCast.2 ⟨rfl, hused⟩, hcount⟩,
      hname⟩

/-- No row is painted with a number from the number of used slots on. -/
theorem paintedName_eq_none : paintedName files w k = none ↔ usedBelow files maxFiles ≤ k := by
  unfold paintedName
  rw [getElem?_fileRows, Option.map_map, Option.map_eq_none_iff]
  exact getElem?_filterMap_range_eq_none

/-- Where the `k`-th entry is printed: after the headings, at the height of row `k`. -/
theorem filesDraw_row (h : paintedName files w k = some name) :
    ∃ f : Fin maxFiles, cstr (files f).name = name ∧
      (filesDraw files w)[(filesHeadings w).length + k]? = some ⟨fileLbl (files f), w.x + 260,
        w.y + 90 + BitVec.ofNat 32 (20 * k), 0x222222, 0xC0C0C0⟩ := by
  obtain ⟨⟨f, sy⟩, hrow, hname⟩ := Option.map_eq_some_iff.1 h
  have hsy := hrow
  rw [getElem?_fileRows, Option.map_eq_some_iff] at hsy
  obtain ⟨g, -, he⟩ := hsy
  obtain ⟨rfl, rfl⟩ := Prod.mk.inj he
  refine ⟨g, hname, ?_⟩
  unfold filesDraw
  rw [List.getElem?_append_right (Nat.le_add_right _ k), Nat.add_sub_cancel_left,
    List.getElem?_map, hrow, Option.map_some]

/-- With unique names, a used slot is opened by its row exactly when no slot before it is free. -/
theorem rowGuard_iff_of_namesUnique (h : NamesUnique files) (hf : (files f).used = true) :
    RowGuard files f ↔ ∀ i, i < f → (files i).used = true := by
  have hall : usedBelow files f = f ↔ ∀ i, i < f → (files i).used = true := by
    unfold usedBelow
    rw [Nat.count_iff_forall]
    constructor
    · intro hcount i hi
      obtain ⟨g, hg⟩ := Option.isSome_iff_exists.1 (hcount i hi)
      obtain ⟨hgi, hused⟩ := vfsGetByIndex_natCast.1 hg
      rwa [Fin.ext hgi] at hused
    · intro hused i hi
      have hi' := hused ⟨i, hi.trans f.isLt⟩ hi
      rw [vfsGetByIndex_natCast.2 ⟨rfl, hi'⟩]
      rfl
  unfold RowGuard
  rw [vfsGetByIndex_natCast.2 ⟨rfl, hf⟩, ← hall]
  constructor
  · rintro ⟨g, hg, hcount, hname⟩
    rwa [h g f hg hf hname] at hcount
  · exact fun hcount => ⟨f, hf, hcount, rfl⟩

/-! ## What a click opens -/

/-- A file is opened in the editor or in the viewer, and both are registered. -/
theorem appFind_openerName (name : List UInt8) : ∃ app,
    appFind shellRegistry (openerName name) = some app ∧
      (app.name = str "yano" ∨ app.name = str "imageviewer") := by
  unfold openerName
  dsimp only
  split
  · exact ⟨⟨str "imageviewer", str "Image Viewer", str "PNG/JPEG/BMP Viewer"⟩, rfl, .inr rfl⟩
  · exact ⟨⟨str "yano", str "yano", str "Text Editor"⟩, rfl, .inl rfl⟩

section
variable (ho : w.closed = false) (ht : strcmp w.title (str "File Explorer") = 0)
  (hx : w.x.toInt + 260 ≤ mx ∧ mx ≤ w.x.toInt + 580)
include ho ht hx

/-- A click on a slot that is used opens its file. -/
theorem filesClick_some {f : Fin maxFiles}
    (hf : vfsGetByIndex files ((my - (w.y.toInt + 90)).tdiv 20) = some f) :
    ∃ app, filesClick shellRegistry files (some w) mx my = some ⟨app, some (files f).name⟩ ∧
      (app.name = str "yano" ∨ app.name = str "imageviewer") := by
  obtain ⟨app, happ, hname⟩ := appFind_openerName (files f).name
  have hrange : 0 ≤ (my - (w.y.toInt + 90)).tdiv 20 ∧ (my - (w.y.toInt + 90)).tdiv 20 < 64 := by
    unfold vfsGetByIndex at hf
    split at hf
    · next h => exact h
    · cases hf
  refine ⟨app, ?_, hname⟩
  simp only [filesClick, ho, ht, hx, hrange, hf, happ, and_self, if_true, Option.map_some]

/-- A click on a slot that is free, or on none, opens nothing. -/
theorem filesClick_none (hf : vfsGetByIndex files ((my - (w.y.toInt + 90)).tdiv 20) = none) :
    filesClick shellRegistry files (some w) mx my = none := by
  simp only [filesClick, ho, ht, hx, hf, and_self, ite_self]

/-- In row `k` the click takes slot `k`: the distance from the first row is divided by the height of
a row. -/
theorem row_iff (hrow : InRow w k my) :
    (match paintedName files w k with
      | some name => Opens (filesClick shellRegistry files (some w) mx my) name
      | none => filesClick shellRegistry files (some w) mx my = none) ↔ RowGuard files k := by
  have hidx : (my - (w.y.toInt + 90)).tdiv 20 = k := by
    obtain ⟨hlo, hhi⟩ := hrow
    rw [Int.tdiv_eq_ediv_of_nonneg (by omega)]
    omega
  unfold RowGuard
  cases hf : vfsGetByIndex files k with
  | some f =>
      obtain ⟨app, hclick, happ⟩ := filesClick_some ho ht hx (hidx ▸ hf)
      rw [hclick]
      dsimp only
      rw [← paintedName_eq_some (w := w)]
      cases paintedName files w k with
      | some name =>
          rw [Option.some.injEq]
          constructor
          · rintro ⟨app', arg, he, -, rfl⟩
            cases he
            rfl
          · rintro rfl
            exact ⟨app, _, rfl, happ, rfl⟩
      | none => exact ⟨fun h => (by cases h), fun h => (by cases h)⟩
  | none =>
      rw [filesClick_none ho ht hx (hidx ▸ hf)]
      dsimp only
      rw [← paintedName_eq_none (w := w)]
      cases paintedName files w k with
      | some name => exact ⟨fun ⟨_, _, h, _⟩ => (by cases h), fun h => (by cases h)⟩
      | none => exact ⟨fun _ => rfl, fun _ => rfl⟩

/-- Above the list the division rounds up: the 19 pixels next to it are slot 0. -/
theorem above_iff (hlt : my < w.y.toInt + 90) :
    filesClick shellRegistry files (some w) mx my = none ↔
      (w.y.toInt + 70 < my → (files 0).used = false) := by
  have hneg : (my - (w.y.toInt + 90)).tdiv 20 = -((w.y.toInt + 90 - my) / 20) := by
    rw [show my - (w.y.toInt + 90) = -(w.y.toInt + 90 - my) by omega, Int.neg_tdiv,
      Int.tdiv_eq_ediv_of_nonneg (by omega)]
  by_cases hnear : w.y.toInt + 70 < my
  · have hidx : (my - (w.y.toInt + 90)).tdiv 20 = (0 : Nat) := by omega
    cases hused : (files 0).used with
    | false =>
        refine iff_of_true (filesClick_none ho ht hx ?_) fun _ => rfl
        rw [hidx]
        cases hf : vfsGetByIndex files (0 : Nat) with
        | none => rfl
        | some f =>
            obtain ⟨hf0, hused'⟩ := vfsGetByIndex_natCast.1 hf
            rw [show f = 0 from Fin.ext hf0, hused] at hused'
            cases hused'
    | true =>
        have hf : vfsGetByIndex files (0 : Nat) = some 0 := vfsGetByIndex_natCast.2 ⟨rfl, hused⟩
        obtain ⟨app, hclick, -⟩ := filesClick_some ho ht hx (hidx ▸ hf)
        rw [hclick]
        exact iff_of_false (fun h => (by cases h)) fun h => (by cases h hnear)
  · refine iff_of_true (filesClick_none ho ht hx ?_) fun h => absurd h hnear
    unfold vfsGetByIndex
    rw [dif_neg (by omega)]

/-- **When a click opens the file that is painted there.** `files_draw` counts the used slots to
place its rows, and the click takes the row's number for a slot number, so the two agree exactly if
the file in that slot is the one with as many used slots before it. A click less than 20 pixels
above the list is taken for slot 0, as the division rounds towards zero. -/
theorem files_click_iff : ClickAgrees files w mx my ↔ ClickGuard files w my := by
  unfold ClickAgrees ClickGuard
  refine and_congr (forall_congr' fun k => ?_) ?_
  · exact ⟨fun h hrow => (row_iff ho ht hx hrow).1 (h hrow),
      fun h hrow => (row_iff ho ht hx hrow).2 (h hrow)⟩
  · exact ⟨fun h hnear hlt => (above_iff ho ht hx hlt).1 (h hlt) hnear,
      fun h hlt => (above_iff ho ht hx hlt).2 fun hnear => h hnear hlt⟩

end

/-! ## The first files -/

section
variable {l : List (List UInt8)} (h : HoldsNames l files)
include h

/-- Below slot `n` the used slots are those of the list: the names stand in the first slots, without
a gap. -/
theorem usedBelow_of_holdsNames {n : Nat} (hn : n ≤ maxFiles) :
    usedBelow files n = min n l.length := by
  induction n with
  | zero => exact (Nat.zero_min _).symm
  | succ n ih =>
      have hslot : (vfsGetByIndex files n).isSome = true ↔ n < l.length := by
        rw [← h.used_iff ⟨n, hn⟩, Option.isSome_iff_exists]
        constructor
        · rintro ⟨f, hf⟩
          obtain ⟨hfn, hused⟩ := vfsGetByIndex_natCast.1 hf
          rwa [show (⟨n, hn⟩ : Fin maxFiles) = f from Fin.ext hfn.symm]
        · exact fun hused => ⟨⟨n, hn⟩, vfsGetByIndex_natCast.2 ⟨rfl, hused⟩⟩
      unfold usedBelow at ih ⊢
      rw [Nat.count_succ, ih (Nat.le_of_succ_le hn)]
      by_cases hlt : n < l.length
      · rw [if_pos (hslot.2 hlt)]
        omega
      · rw [if_neg (mt hslot.1 hlt)]
        omega

/-- The `k`-th entry is the `k`-th name, and there is none behind the last. -/
theorem paintedName_of_holdsNames (hl : l.length ≤ maxFiles) (w : Window (List UInt8) δ) (k : Nat) :
    paintedName files w k = l[k]? := by
  cases hk : l[k]? with
  | none =>
      have hlen := List.getElem?_eq_none_iff.1 hk
      rw [paintedName_eq_none, usedBelow_of_holdsNames h (Nat.le_refl _), Nat.min_eq_right hl]
      exact hlen
  | some name =>
      have hlt := (List.getElem?_eq_some_iff.1 hk).1
      have hused := (h.used_iff ⟨k, hlt.trans_le hl⟩).2 hlt
      have hname := (h.name_eq hused).symm.trans hk
      refine paintedName_eq_some.2 ⟨⟨k, hlt.trans_le hl⟩, hused, ?_, Option.some.inj hname⟩
      exact (usedBelow_of_holdsNames h (hlt.trans_le hl).le).trans (Nat.min_eq_left hlt.le)

/-- Every row opens what is painted on it, as long as no file was removed: slots and rows are
numbered alike. -/
theorem rowGuard_of_holdsNames (hl : l.length ≤ maxFiles) (k : Nat) : RowGuard files k := by
  unfold RowGuard
  cases hf : vfsGetByIndex files k with
  | none =>
      dsimp only
      rw [usedBelow_of_holdsNames h (Nat.le_refl _), Nat.min_eq_right hl]
      refine Nat.le_of_not_lt fun hlt => ?_
      have hused := (h.used_iff ⟨k, hlt.trans_le hl⟩).2 hlt
      rw [vfsGetByIndex_natCast.2 ⟨rfl, hused⟩] at hf
      cases hf
  | some f =>
      obtain ⟨rfl, hused⟩ := vfsGetByIndex_natCast.1 hf
      refine ⟨f, hused, ?_, rfl⟩
      exact (usedBelow_of_holdsNames h f.isLt.le).trans
        (Nat.min_eq_left ((h.used_iff f).1 hused).le)

end

/-- The window `files_launch` opens. -/
def explorerWindow : Window (List UInt8) Unit :=
  ⟨200, 150, 600, 400, str "File Explorer", 0xC0C0C0, true, false, false, none, 0⟩

/-- Right after `vfs_init` the second row shows `limine.conf`, and a click there opens it. -/
theorem files_click_second_row :
    paintedName (vfsInit []) explorerWindow 1 = some (str "limine.conf") ∧
      Opens (filesClick shellRegistry (vfsInit []) (some explorerWindow) 500 265)
        (str "limine.conf") := by
  have hnames := holdsNames_vfsInit []
  have hpainted : paintedName (vfsInit []) explorerWindow 1 = some (str "limine.conf") :=
    paintedName_of_holdsNames hnames (by decide) explorerWindow 1
  have hguard : ClickGuard (vfsInit []) explorerWindow 265 := by
    refine ⟨fun k _ => rowGuard_of_holdsNames hnames (by decide) k, fun _ hlt => ?_⟩
    exact absurd hlt (by decide)
  have hagrees : ClickAgrees (vfsInit []) explorerWindow 500 265 :=
    (files_click_iff rfl (by decide) (by decide)).2 hguard
  generalize vfsInit [] = files at hpainted hagrees ⊢
  have hrow := hagrees.1 1 ⟨by decide, by decide⟩
  rw [hpainted] at hrow
  exact ⟨hpainted, hrow⟩

/-- Right after `vfs_init`, a click five pixels above the list opens the first file. -/
theorem files_click_above_list :
    ¬ ∀ (logoPng : List UInt8) (calls : List VfsChange) (w : Window (List UInt8) Unit)
      (mx my : Int), w.closed = false → strcmp w.title (str "File Explorer") = 0 →
      w.x.toInt + 260 ≤ mx ∧ mx ≤ w.x.toInt + 580 →
      ClickAgrees (Machine.run vfsChange (vfsInit logoPng) calls) w mx my := by
  intro h
  have hagrees := h [] [] explorerWindow 500 235 rfl (by decide) (by decide)
  have hused := ((holdsNames_vfsInit []).used_iff 0).2 (by decide)
  rw [Machine.run_nil] at hagrees
  generalize vfsInit [] = files at hagrees hused
  have hfree := (above_iff rfl (by decide) (by decide) (by decide)).1 (hagrees.2 (by decide))
    (by decide)
  rw [hfree] at hused
  cases hused

end

end OnkenOS
