import OnkenOS.Lib.Run
import OnkenOS.Gui.Pixels
import OnkenOS.Kernel.Mm

/-!
# The framebuffer's buffers on the heap

`fb_alloc_buffers` gives each buffer `fb_width * fb_height * 4` bytes, and every pixel access
uses the pitch. Here the four buffers are what they are in the kernel, pointers into one heap,
with the blocks that `kmalloc` returns. `fb_buffers_fit_iff` is the exact condition under which
they are separate and large enough; under it the heap behaves like the separate arrays of
`OnkenOS.Gui.Fb` (`Views.run`).

The heap is read and written in words, by byte address: the pointers differ by multiples of
sixteen, so two of the words below are one word or do not overlap.
-/

namespace OnkenOS

open Words

/-- The words of the heap, by byte address. -/
abbrev HeapMem := BitVec 64 → BitVec 32

/-- The static variables of `fb.c` that point into the heap, with the heap. -/
structure FbHeap where
  heap : HeapMem
  fbWidth : BitVec 32
  fbHeight : BitVec 32
  fbPitch : BitVec 32
  backBuffer : BitVec 64
  wallpaperCache : BitVec 64
  desktopBuffer : BitVec 64
  frontBufferCopy : BitVec 64

/-- `&p[i]`. -/
def wordAt (p : BitVec 64) (i : Nat) : BitVec 64 := p + BitVec.ofNat 64 (4 * i)

namespace FbHeap

/-- `fb_alloc_buffers`, after `fb_init_raw`. -/
def fbAllocBuffers (mm : Mm) (w h pitch : BitVec 32) (heap : HeapMem) : FbHeap :=
  let size := w * h * 4
  let (backBuffer, mm) := kmalloc mm size
  let (wallpaperCache, mm) := kmalloc mm size
  let (desktopBuffer, mm) := kmalloc mm size
  let (frontBufferCopy, _) := kmalloc mm size
  { heap := forUp (size / 4).toNat
      (fun i m => Function.update m (wordAt frontBufferCopy i) 0) heap
    fbWidth := w
    fbHeight := h
    fbPitch := pitch
    backBuffer := backBuffer
    wallpaperCache := wallpaperCache
    desktopBuffer := desktopBuffer
    frontBufferCopy := frontBufferCopy }

/-- The size of a block. -/
def size (s : FbHeap) : BitVec 32 := s.fbWidth * s.fbHeight * 4

/-- `fb_plot`. -/
def fbPlot (s : FbHeap) (x y color : BitVec 32) : FbHeap :=
  if x < s.fbWidth ∧ y < s.fbHeight then
    { s with
      heap := Function.update s.heap (wordAt s.backBuffer (wordIndex s.fbPitch x y)) color }
  else s

/-- `memcpy32(d, p, size)`. -/
def memcpy32 (s : FbHeap) (d p : BitVec 64) (size : BitVec 32) : FbHeap :=
  { s with heap := copyWithin (wordAt d) (wordAt p) (size / 4).toNat s.heap }

/-- `fb_clear_to_wallpaper`. -/
def fbClearToWallpaper (s : FbHeap) : FbHeap :=
  s.memcpy32 s.backBuffer s.wallpaperCache (s.fbWidth * s.fbHeight * 4)

/-- `fb_commit_desktop`. -/
def fbCommitDesktop (s : FbHeap) : FbHeap :=
  s.memcpy32 s.desktopBuffer s.backBuffer (s.fbWidth * s.fbHeight * 4)

/-- `fb_plot` for each of the pixels. -/
def plotAll (s : FbHeap) (plots : List (BitVec 32 × BitVec 32 × BitVec 32)) : FbHeap :=
  plots.foldl (fun s p => s.fbPlot p.1 p.2.1 p.2.2) s

/-- The state with another heap content. -/
def withHeap (s : FbHeap) (m : HeapMem) : FbHeap := { s with heap := m }

/-- The buffers fit their pixels: the word of every visible pixel lies in the block, drawing
into the back buffer changes no word of the other blocks, and the two block copies copy every
visible pixel. -/
structure BuffersFit (s : FbHeap) : Prop where
  inside : ∀ x y, x < s.fbWidth → y < s.fbHeight →
    4 * wordIndex s.fbPitch x y + 4 ≤ s.size.toNat
  apart : ∀ (m : HeapMem) (plots : List (BitVec 32 × BitVec 32 × BitVec 32)) (p : BitVec 64),
    p ∈ [s.wallpaperCache, s.desktopBuffer, s.frontBufferCopy] →
    ∀ i, 4 * i + 4 ≤ s.size.toNat →
      ((s.withHeap m).plotAll plots).heap (wordAt p i) = m (wordAt p i)
  clear : ∀ (m : HeapMem) (x y : BitVec 32), x < s.fbWidth → y < s.fbHeight →
    (s.withHeap m).fbClearToWallpaper.heap (wordAt s.backBuffer (wordIndex s.fbPitch x y)) =
      m (wordAt s.wallpaperCache (wordIndex s.fbPitch x y))
  commit : ∀ (m : HeapMem) (x y : BitVec 32), x < s.fbWidth → y < s.fbHeight →
    (s.withHeap m).fbCommitDesktop.heap (wordAt s.desktopBuffer (wordIndex s.fbPitch x y)) =
      m (wordAt s.backBuffer (wordIndex s.fbPitch x y))

/-! ## The blocks -/

/-- Block `k` of size `a`, from `p` upward. -/
def blockAt (p : BitVec 64) (a k : Nat) : BitVec 64 := p + BitVec.ofNat 64 (k * a)

/-- Words of blocks that hold them are equal only if they are the same word of the same
block. -/
theorem wordAt_blockAt_inj {p : BitVec 64} {a n i j k l : Nat} (ha : a < 2 ^ 32)
    (hn : 4 * n ≤ a) (hi : i < n) (hj : j < n) (hk : k < 4) (hl : l < 4)
    (h : wordAt (blockAt p a k) i = wordAt (blockAt p a l) j) : k = l ∧ i = j := by
  have hka : k * a ≤ 3 * a := Nat.mul_le_mul_right a (by omega)
  have hla : l * a ≤ 3 * a := Nat.mul_le_mul_right a (by omega)
  unfold wordAt blockAt at h
  rw [BitVec.add_assoc, BitVec.add_assoc, ← BitVec.ofNat_add, ← BitVec.ofNat_add] at h
  have hofs := congrArg BitVec.toNat ((BitVec.add_right_inj p).1 h)
  rw [BitVec.toNat_ofNat, BitVec.toNat_ofNat, Nat.mod_eq_of_lt (by omega),
    Nat.mod_eq_of_lt (by omega)] at hofs
  rcases Nat.lt_trichotomy k l with hlt | rfl | hgt
  · have : (k + 1) * a ≤ l * a := Nat.mul_le_mul_right a hlt
    rw [Nat.add_mul] at this
    omega
  · exact ⟨rfl, by omega⟩
  · have : (l + 1) * a ≤ k * a := Nat.mul_le_mul_right a hgt
    rw [Nat.add_mul] at this
    omega

/-- The four buffers are consecutive blocks of `a` bytes that have room for `n` words, and the
words of the visible pixels are among these. -/
structure Laid (s : FbHeap) (p : BitVec 64) (a n : Nat) : Prop where
  back : s.backBuffer = blockAt p a 0
  wallpaper : s.wallpaperCache = blockAt p a 1
  desktop : s.desktopBuffer = blockAt p a 2
  front : s.frontBufferCopy = blockAt p a 3
  small : a < 2 ^ 32
  room : 4 * n ≤ a
  words : s.size.toNat / 4 = n
  visible : ∀ x y, x < s.fbWidth → y < s.fbHeight → wordIndex s.fbPitch x y < n

/-! ## The heap as four arrays -/

/-- The words of a block are the first words of an array. -/
def Holds (m : HeapMem) (p : BitVec 64) (n : Nat) (b : Buf) : Prop :=
  ∀ i, i < n → m (wordAt p i) = b i

/-- The heap holds the buffers of `t`, which has the same screen. -/
structure Views (s : FbHeap) (n : Nat) (t : Fb) : Prop where
  width : t.fbWidth = s.fbWidth
  height : t.fbHeight = s.fbHeight
  pitch : t.fbPitch = s.fbPitch
  back : Holds s.heap s.backBuffer n t.backBuffer
  wallpaper : Holds s.heap s.wallpaperCache n t.wallpaperCache
  desktop : Holds s.heap s.desktopBuffer n t.desktopBuffer
  front : Holds s.heap s.frontBufferCopy n t.frontBufferCopy

section
variable {s : FbHeap} {t : Fb} {p : BitVec 64} {a n : Nat}

/-- A store into one block is a store into its array. -/
theorem Holds.update {m : HeapMem} {b : Buf} {k i : Nat} {c : BitVec 32}
    (h : Holds m (blockAt p a k) n b) (ha : a < 2 ^ 32) (hn : 4 * n ≤ a) (hk : k < 4)
    (hi : i < n) :
    Holds (Function.update m (wordAt (blockAt p a k) i) c) (blockAt p a k) n (b.set i c) := by
  intro j hj
  unfold Buf.set
  by_cases hij : j = i
  · rw [hij, Function.update_self, Function.update_self]
  · rw [Function.update_of_ne hij, Function.update_of_ne, h j hj]
    exact fun he => hij (wordAt_blockAt_inj ha hn hj hi hk hk he).2

/-- A store into one block leaves the others alone. -/
theorem Holds.update_other {m : HeapMem} {b : Buf} {k l i : Nat} {c : BitVec 32}
    (h : Holds m (blockAt p a l) n b) (ha : a < 2 ^ 32) (hn : 4 * n ≤ a) (hk : k < 4)
    (hl : l < 4) (hi : i < n) (hkl : l ≠ k) :
    Holds (Function.update m (wordAt (blockAt p a k) i) c) (blockAt p a l) n b := by
  intro j hj
  rw [Function.update_of_ne, h j hj]
  exact fun he => hkl (wordAt_blockAt_inj ha hn hj hi hl hk he).1

/-- A copy of one block to another is a copy of the arrays. -/
theorem Holds.copy {m : HeapMem} {b d : Buf} {k l : Nat} {size : BitVec 32}
    (h : Holds m (blockAt p a l) n b) (ha : a < 2 ^ 32) (hn : 4 * n ≤ a) (hk : k < 4)
    (hl : l < 4) (hkl : l ≠ k) (hsize : size.toNat / 4 = n) :
    Holds (copyWithin (wordAt (blockAt p a k)) (wordAt (blockAt p a l)) (size / 4).toNat m)
      (blockAt p a k) n (OnkenOS.memcpy32 d b 0 0 size) := by
  intro i hi
  rw [toNat_div_four, hsize]
  have harr : OnkenOS.memcpy32 d b 0 0 size i = b i := by
    unfold OnkenOS.memcpy32
    rw [toNat_div_four, hsize, copyWords_apply, if_pos ⟨Nat.zero_le i, by omega⟩]
  rw [harr, ← h i hi]
  refine copyWithin_at hi (fun j hj he => ?_) (fun i j hi hj he => ?_) m
  · exact hkl (wordAt_blockAt_inj ha hn hi hj hl hk he).1
  · exact (wordAt_blockAt_inj ha hn hi hj hk hk he).2

/-- A copy to one block leaves the others alone. -/
theorem Holds.copy_other {m : HeapMem} {b : Buf} {q : BitVec 64} {k l w : Nat}
    (h : Holds m (blockAt p a l) n b) (ha : a < 2 ^ 32) (hn : 4 * n ≤ a) (hk : k < 4)
    (hl : l < 4) (hkl : l ≠ k) (hw : w ≤ n) :
    Holds (copyWithin (wordAt (blockAt p a k)) (wordAt q) w m) (blockAt p a l) n b := by
  intro i hi
  rw [copyWithin_of_ne, h i hi]
  exact fun j hj he => hkl (wordAt_blockAt_inj ha hn hi (by omega) hl hk he).1

/-! ## The heap refines the arrays -/

/-- What `shell_loop` does to the buffers between two frames. -/
inductive DrawEvent where
  | plot (x y color : BitVec 32)
  | clearToWallpaper
  | commitDesktop

/-- One event on the heap. -/
def drawStep (s : FbHeap) : DrawEvent → FbHeap
  | .plot x y color => s.fbPlot x y color
  | .clearToWallpaper => s.fbClearToWallpaper
  | .commitDesktop => s.fbCommitDesktop

/-- One event on the arrays. -/
def arrayStep (t : Fb) : DrawEvent → Fb
  | .plot x y color => OnkenOS.fbPlot t x y color
  | .clearToWallpaper => OnkenOS.fbClearToWallpaper t
  | .commitDesktop => OnkenOS.fbCommitDesktop t

/-- Every event keeps the layout: no event writes a pointer. -/
theorem Laid.step (h : Laid s p a n) (e : DrawEvent) : Laid (drawStep s e) p a n := by
  have hheap : ∀ m, Laid (s.withHeap m) p a n := fun m =>
    ⟨h.back, h.wallpaper, h.desktop, h.front, h.small, h.room, h.words, h.visible⟩
  cases e with
  | plot x y color =>
      change Laid (s.fbPlot x y color) p a n
      unfold FbHeap.fbPlot
      split
      · exact hheap _
      · exact h
  | clearToWallpaper => exact hheap _
  | commitDesktop => exact hheap _

/-- Storing into the back buffer, by any heap that differs from the old one there only. -/
theorem Views.of_back (h : Views s n t) (hl : Laid s p a n) {m : HeapMem} {b : Buf}
    (hb : Holds m (blockAt p a 0) n b)
    (hother : ∀ {k c}, k < 4 → k ≠ 0 → Holds s.heap (blockAt p a k) n c →
      Holds m (blockAt p a k) n c) :
    Views (s.withHeap m) n { t with backBuffer := b } where
  width := h.width
  height := h.height
  pitch := h.pitch
  back := hl.back ▸ hb
  wallpaper := hl.wallpaper ▸ hother (by omega) (by omega) (hl.wallpaper ▸ h.wallpaper)
  desktop := hl.desktop ▸ hother (by omega) (by omega) (hl.desktop ▸ h.desktop)
  front := hl.front ▸ hother (by omega) (by omega) (hl.front ▸ h.front)

/-- Storing into the desktop buffer, by any heap that differs from the old one there only. -/
theorem Views.of_desktop (h : Views s n t) (hl : Laid s p a n) {m : HeapMem} {b : Buf}
    (hb : Holds m (blockAt p a 2) n b)
    (hother : ∀ {k c}, k < 4 → k ≠ 2 → Holds s.heap (blockAt p a k) n c →
      Holds m (blockAt p a k) n c) :
    Views (s.withHeap m) n { t with desktopBuffer := b } where
  width := h.width
  height := h.height
  pitch := h.pitch
  back := hl.back ▸ hother (by omega) (by omega) (hl.back ▸ h.back)
  wallpaper := hl.wallpaper ▸ hother (by omega) (by omega) (hl.wallpaper ▸ h.wallpaper)
  desktop := hl.desktop ▸ hb
  front := hl.front ▸ hother (by omega) (by omega) (hl.front ▸ h.front)

/-- Every event does to the heap what it does to the arrays. -/
theorem Views.step (h : Views s n t) (hl : Laid s p a n) (e : DrawEvent) :
    Views (drawStep s e) n (arrayStep t e) := by
  have hsize : (t.fbWidth * t.fbHeight * 4).toNat / 4 = n := by
    rw [h.width, h.height]
    exact hl.words
  cases e with
  | plot x y color =>
      change Views (s.fbPlot x y color) n (OnkenOS.fbPlot t x y color)
      have hvis : (x < t.fbWidth ∧ y < t.fbHeight) ↔ (x < s.fbWidth ∧ y < s.fbHeight) := by
        rw [h.width, h.height]
      unfold FbHeap.fbPlot OnkenOS.fbPlot
      rw [if_congr hvis rfl rfl]
      split
      · next hv =>
          have hi := hl.visible x y hv.1 hv.2
          have hback := hl.back ▸ h.back
          refine h.of_back hl ?_ fun hk hk0 hc => ?_
          · rw [hl.back, h.pitch]
            exact hback.update hl.small hl.room (by omega) hi
          · rw [hl.back]
            exact hc.update_other hl.small hl.room (by omega) hk hi hk0
      · exact h
  | clearToWallpaper =>
      have hwallpaper := hl.wallpaper ▸ h.wallpaper
      refine h.of_back hl ?_ fun hk hk0 hc => ?_
      · rw [hl.back, hl.wallpaper, ← h.width, ← h.height]
        exact hwallpaper.copy hl.small hl.room (by omega) (by omega) (by omega) hsize
      · rw [hl.back, ← h.width, ← h.height, toNat_div_four]
        exact hc.copy_other hl.small hl.room (by omega) hk hk0 (Nat.le_of_eq hsize)
  | commitDesktop =>
      have hback := hl.back ▸ h.back
      refine h.of_desktop hl ?_ fun hk hk0 hc => ?_
      · rw [hl.back, hl.desktop, ← h.width, ← h.height]
        exact hback.copy hl.small hl.room (by omega) (by omega) (by omega) hsize
      · rw [hl.desktop, ← h.width, ← h.height, toNat_div_four]
        exact hc.copy_other hl.small hl.room (by omega) hk hk0 (Nat.le_of_eq hsize)

/-- The layout stays along every run, by induction from the step. -/
theorem Laid.run (h : Laid s p a n) (es : List DrawEvent) :
    Laid (Machine.run drawStep s es) p a n := by
  have hstep : ∀ (s : FbHeap) (e : DrawEvent), Laid s p a n → Laid (drawStep s e) p a n :=
    fun _ e h => h.step e
  exact Machine.run_invariant hstep es h

/-- Laid out like this, the heap goes through the states of the arrays. -/
theorem Views.run (h : Views s n t) (hl : Laid s p a n) (es : List DrawEvent) :
    Views (Machine.run drawStep s es) n (Machine.run arrayStep t es) := by
  have hsim : ∀ (s : FbHeap) (t : Fb) (e : DrawEvent), Laid s p a n ∧ Views s n t →
      Laid (drawStep s e) p a n ∧ Views (drawStep s e) n (arrayStep t e) :=
    fun s t e h => ⟨h.1.step e, h.2.step h.1 e⟩
  exact (Machine.run_simulation hsim es ⟨hl, h⟩).2

end

/-! ## When the buffers fit -/

/-- The buffers on the heap, as arrays. -/
def toFb (s : FbHeap) : Fb :=
  { Fb.static with
    fbWidth := s.fbWidth
    fbHeight := s.fbHeight
    fbPitch := s.fbPitch
    backBuffer := fun i => s.heap (wordAt s.backBuffer i)
    wallpaperCache := fun i => s.heap (wordAt s.wallpaperCache i)
    desktopBuffer := fun i => s.heap (wordAt s.desktopBuffer i)
    frontBufferCopy := fun i => s.heap (wordAt s.frontBufferCopy i) }

/-- The arrays that are read off the heap are those on the heap. -/
theorem views_toFb (s : FbHeap) (n : Nat) : Views s n s.toFb :=
  ⟨rfl, rfl, rfl, fun _ _ => rfl, fun _ _ => rfl, fun _ _ => rfl, fun _ _ => rfl⟩

/-- `fb_plot` on the arrays changes the back buffer only: the other buffers and the screen stay. -/
theorem run_plots_others (t : Fb) (plots : List (BitVec 32 × BitVec 32 × BitVec 32)) :
    let t' := Machine.run arrayStep t (plots.map fun p => .plot p.1 p.2.1 p.2.2)
    t'.wallpaperCache = t.wallpaperCache ∧ t'.desktopBuffer = t.desktopBuffer ∧
      t'.frontBufferCopy = t.frontBufferCopy := by
  induction plots generalizing t with
  | nil => exact ⟨rfl, rfl, rfl⟩
  | cons p plots ih =>
      have hp : (OnkenOS.fbPlot t p.1 p.2.1 p.2.2).wallpaperCache = t.wallpaperCache ∧
          (OnkenOS.fbPlot t p.1 p.2.1 p.2.2).desktopBuffer = t.desktopBuffer ∧
          (OnkenOS.fbPlot t p.1 p.2.1 p.2.2).frontBufferCopy = t.frontBufferCopy := by
        unfold OnkenOS.fbPlot
        split <;> exact ⟨rfl, rfl, rfl⟩
      obtain ⟨h₁, h₂, h₃⟩ := ih (OnkenOS.fbPlot t p.1 p.2.1 p.2.2)
      exact ⟨h₁.trans hp.1, h₂.trans hp.2.1, h₃.trans hp.2.2⟩

/-- Plotting some pixels is a run of plots. -/
theorem plotAll_eq_run (s : FbHeap) (plots : List (BitVec 32 × BitVec 32 × BitVec 32)) :
    s.plotAll plots = Machine.run drawStep s (plots.map fun p => .plot p.1 p.2.1 p.2.2) := by
  unfold plotAll Machine.run
  rw [List.foldl_map]
  rfl

/-- A copy of a whole buffer copies the words of the pixels. -/
theorem Laid.memcpy32_apply {s : FbHeap} {p : BitVec 64} {a n k : Nat} (hl : Laid s p a n)
    (hk : k < n) (d b : Buf) : OnkenOS.memcpy32 d b 0 0 s.size k = b k := by
  have hwords := hl.words
  have hin : 0 ≤ k ∧ k < 0 + n := ⟨Nat.zero_le k, by omega⟩
  unfold OnkenOS.memcpy32
  rw [toNat_div_four, copyWords_apply, hwords, if_pos hin]

/-- Buffers that are laid out for their pixels fit them: the blocks are consecutive, so a word of
one is no word of another. -/
theorem Laid.buffersFit {s : FbHeap} {p : BitVec 64} {a n : Nat} (hl : Laid s p a n) :
    s.BuffersFit := by
  have hm : ∀ m, Laid (s.withHeap m) p a n := fun m =>
    ⟨hl.back, hl.wallpaper, hl.desktop, hl.front, hl.small, hl.room, hl.words, hl.visible⟩
  have hwords := hl.words
  have hroom : 4 * n ≤ s.size.toNat := by omega
  refine ⟨fun x y hx hy => ?_, fun m plots q hq i hi => ?_, fun m x y hx hy => ?_,
    fun m x y hx hy => ?_⟩
  · have := hl.visible x y hx hy
    omega
  · have hv := (views_toFb (s.withHeap m) n).run (hm m)
      (plots.map fun p => .plot p.1 p.2.1 p.2.2)
    have hl' := (hm m).run (plots.map fun p => .plot p.1 p.2.1 p.2.2)
    obtain ⟨h₁, h₂, h₃⟩ := run_plots_others (s.withHeap m).toFb plots
    have hi : i < n := by omega
    rw [plotAll_eq_run]
    simp only [List.mem_cons, List.not_mem_nil, or_false] at hq
    rcases hq with rfl | rfl | rfl
    · rw [hl.wallpaper, ← hl'.wallpaper, hv.wallpaper i hi, h₁, hl'.wallpaper, ← hl.wallpaper]
      rfl
    · rw [hl.desktop, ← hl'.desktop, hv.desktop i hi, h₂, hl'.desktop, ← hl.desktop]
      rfl
    · rw [hl.front, ← hl'.front, hv.front i hi, h₃, hl'.front, ← hl.front]
      rfl
  · have hv := (views_toFb (s.withHeap m) n).step (hm m) .clearToWallpaper
    exact (hv.back _ (hl.visible x y hx hy)).trans (hl.memcpy32_apply (hl.visible x y hx hy) _ _)
  · have hv := (views_toFb (s.withHeap m) n).step (hm m) .commitDesktop
    exact (hv.desktop _ (hl.visible x y hx hy)).trans
      (hl.memcpy32_apply (hl.visible x y hx hy) _ _)

/-! ## The layout of `fb_alloc_buffers` -/

section
variable {mm : Mm} {w h pitch : BitVec 32} {heap : HeapMem}

/-- A block ends where the next one begins. -/
theorem blockAt_add (p : BitVec 64) (v : BitVec 32) (k : Nat) :
    blockAt p v.toNat k + v.setWidth 64 = blockAt p v.toNat (k + 1) := by
  have hv : v.setWidth 64 = BitVec.ofNat 64 v.toNat := (BitVec.ofNat_toNat 64 v).symm
  unfold blockAt
  rw [hv, BitVec.add_assoc, ← BitVec.ofNat_add, Nat.add_mul, Nat.one_mul]

/-- The size that is asked for does not wrap on a screen of less than `2 ^ 30` pixels. -/
theorem size_toNat (hsize : w.toNat * h.toNat * 4 < 2 ^ 32) :
    (w * h * 4).toNat = w.toNat * h.toNat * 4 := by
  have hfour : (4 : BitVec 32).toNat = 4 := rfl
  rw [BitVec.toNat_mul, BitVec.toNat_mul, hfour,
    Nat.mod_eq_of_lt (show w.toNat * h.toNat < 2 ^ 32 by omega), Nat.mod_eq_of_lt hsize]

/-- The four calls of `kmalloc` return consecutive blocks of the rounded size. -/
theorem fbAllocBuffers_blocks (mm : Mm) (w h pitch : BitVec 32) (heap : HeapMem) :
    let a := (alignedSize (w * h * 4)).toNat
    (fbAllocBuffers mm w h pitch heap).backBuffer = blockAt mm.heapPtr a 0 ∧
      (fbAllocBuffers mm w h pitch heap).wallpaperCache = blockAt mm.heapPtr a 1 ∧
      (fbAllocBuffers mm w h pitch heap).desktopBuffer = blockAt mm.heapPtr a 2 ∧
      (fbAllocBuffers mm w h pitch heap).frontBufferCopy = blockAt mm.heapPtr a 3 := by
  have h₀ : mm.heapPtr = blockAt mm.heapPtr (alignedSize (w * h * 4)).toNat 0 := by
    unfold blockAt
    rw [Nat.zero_mul]
    exact (BitVec.add_zero _).symm
  have h₁ := blockAt_add mm.heapPtr (alignedSize (w * h * 4)) 0
  have h₂ := blockAt_add mm.heapPtr (alignedSize (w * h * 4)) 1
  have h₃ := blockAt_add mm.heapPtr (alignedSize (w * h * 4)) 2
  rw [← h₀] at h₁
  rw [← h₁] at h₂
  rw [← h₂] at h₃
  exact ⟨h₀, h₁, h₂, h₃⟩

/-- Without padding, and for a size that `kmalloc` does not wrap, the buffers are laid out for
their pixels. -/
theorem fbAllocBuffers_laid (hsize : w.toNat * h.toNat * 4 ≤ 2 ^ 32 - 16)
    (hgeom : h.toNat = 1 ∨ pitch.toNat = 4 * w.toNat) :
    Laid (fbAllocBuffers mm w h pitch heap) mm.heapPtr (alignedSize (w * h * 4)).toNat
      (w.toNat * h.toNat) := by
  obtain ⟨hb, hw, hd, hf⟩ := fbAllocBuffers_blocks mm w h pitch heap
  have hnat : (w * h * 4).toNat = w.toNat * h.toNat * 4 := size_toNat (by omega)
  have hround := alignedSize_toNat (w * h * 4)
  refine ⟨hb, hw, hd, hf, (alignedSize (w * h * 4)).isLt, by omega, ?_, fun x y hx hy => ?_⟩
  · change (w * h * 4).toNat / 4 = _
    omega
  · have hx : x.toNat < w.toNat := hx
    have hy : y.toNat < h.toNat := hy
    change wordIndex pitch x y < _
    rw [wordIndex_eq]
    refine Nat.lt_of_le_of_lt (Nat.mod_le _ _) ?_
    rcases hgeom with h1 | hpad
    · rw [h1, show y.toNat = 0 by omega]
      omega
    · have hrow : (y.toNat + 1) * w.toNat ≤ h.toNat * w.toNat := Nat.mul_le_mul_right _ hy
      rw [Nat.add_mul, Nat.one_mul] at hrow
      rw [hpad, Nat.mul_div_cancel_left _ (by omega), Nat.mul_comm w.toNat]
      omega

/-- With padded rows, some visible pixel lies beyond the block: the last one, whose row begins at a
multiple of the pitch, while the block is as large as the pixels. -/
theorem exists_pixel_outside (hpitch : pitch.toNat % 4 = 0) (hrow : 4 * w.toNat < pitch.toNat)
    (hw : 0 < w.toNat) (hh : 1 < h.toNat) (hsize : w.toNat * h.toNat * 4 < 2 ^ 32) :
    ∃ x y : BitVec 32, x < w ∧ y < h ∧ w.toNat * h.toNat ≤ wordIndex pitch x y := by
  obtain ⟨rows, hrows⟩ : ∃ rows, h.toNat = rows + 1 := ⟨h.toNat - 1, by omega⟩
  obtain ⟨stride, hstride⟩ : ∃ stride, pitch.toNat = 4 * stride := ⟨pitch.toNat / 4, by omega⟩
  have hpos : 0 < stride := by omega
  have hy : w.toNat * rows / stride < rows :=
    (Nat.div_lt_iff_lt_mul hpos).2
      (by rw [Nat.mul_comm]; exact Nat.mul_lt_mul_of_pos_left (by omega) (by omega))
  have hbelow := Nat.div_mul_le_self (w.toNat * rows) stride
  have habove : w.toNat * rows < (w.toNat * rows / stride + 1) * stride := by
    rw [Nat.mul_comm _ stride]
    exact Nat.lt_mul_div_succ _ hpos
  rw [Nat.add_mul, Nat.one_mul] at habove
  rw [hrows, Nat.mul_add, Nat.mul_one] at hsize ⊢
  generalize hq : w.toNat * rows / stride = q at hy hbelow habove
  generalize w.toNat * rows = area at *
  have hpl := pitch.isLt
  have hhl := h.isLt
  have hwl := w.isLt
  have hx : (BitVec.ofNat 32 (w.toNat - 1)).toNat = w.toNat - 1 := by
    rw [BitVec.toNat_ofNat, Nat.mod_eq_of_lt (by omega)]
  have hrow : (BitVec.ofNat 32 (q + 1)).toNat = q + 1 := by
    rw [BitVec.toNat_ofNat, Nat.mod_eq_of_lt (by omega)]
  refine ⟨BitVec.ofNat 32 (w.toNat - 1), BitVec.ofNat 32 (q + 1), ?_, ?_, ?_⟩
  · rw [BitVec.lt_def, hx]
    omega
  · rw [BitVec.lt_def, hrow]
    omega
  · rw [wordIndex_eq, hx, hrow, hstride, Nat.mul_div_cancel_left _ (by omega), Nat.add_mul,
      Nat.one_mul, Nat.mod_eq_of_lt (by omega)]
    omega

end

/-- The buffers `fb_alloc_buffers` obtains fit their pixels exactly when there are no pixels, or the
rows have no padding (or there is only one) and the size is not one that `kmalloc` rounds up to
zero: the size is that of the pixels, and the pixels are stored by the pitch. -/
theorem fb_buffers_fit_iff (mm : Mm) (w h pitch : BitVec 32) (heap : HeapMem)
    (hpitch : pitch.toNat % 4 = 0) (hrow : 4 * w.toNat ≤ pitch.toNat)
    (hsize : w.toNat * h.toNat * 4 < 2 ^ 32) :
    (fbAllocBuffers mm w h pitch heap).BuffersFit ↔
      w.toNat = 0 ∨ h.toNat = 0 ∨
        ((h.toNat = 1 ∨ pitch.toNat = 4 * w.toNat) ∧
          w.toNat * h.toNat * 4 ≤ 2 ^ 32 - 16) := by
  have hnat : (w * h * 4).toNat = w.toNat * h.toNat * 4 := size_toNat hsize
  constructor
  · intro hfit
    rcases Nat.eq_zero_or_pos w.toNat with hw | hw
    · exact .inl hw
    rcases Nat.eq_zero_or_pos h.toNat with hh | hh
    · exact .inr (.inl hh)
    refine .inr (.inr ⟨?_, ?_⟩)
    · by_contra hcon
      obtain ⟨x, y, hx, hy, hout⟩ :=
        exists_pixel_outside hpitch (by omega) hw (by omega) hsize
      have hin : 4 * wordIndex pitch x y + 4 ≤ (w * h * 4).toNat := hfit.inside x y hx hy
      omega
    · by_contra hcon
      -- all four blocks start at the heap pointer
      have hround := alignedSize_toNat (w * h * 4)
      obtain ⟨hb, hwp, -, -⟩ := fbAllocBuffers_blocks mm w h pitch heap
      rw [show (alignedSize (w * h * 4)).toNat = 0 by omega] at hb hwp
      have hsame : (fbAllocBuffers mm w h pitch heap).wallpaperCache =
          (fbAllocBuffers mm w h pitch heap).backBuffer := hwp.trans hb.symm
      have hapart := hfit.apart (fun _ => 0) [(0, 0, 1)] _ (.head _) 0
        (show 4 * 0 + 4 ≤ (w * h * 4).toNat by omega)
      have horigin : wordIndex pitch 0 0 = 0 := by
        simp [wordIndex_eq]
      have hplot : ((fbAllocBuffers mm w h pitch heap).withHeap fun _ => 0).plotAll [(0, 0, 1)] =
          (fbAllocBuffers mm w h pitch heap).withHeap (Function.update (fun _ => 0)
            (wordAt (fbAllocBuffers mm w h pitch heap).backBuffer (wordIndex pitch 0 0)) 1) :=
        if_pos (show (0 : BitVec 32) < w ∧ (0 : BitVec 32) < h from ⟨hw, hh⟩)
      rw [hsame, hplot, horigin] at hapart
      simp only [withHeap, Function.update_self] at hapart
      exact absurd hapart (by decide)
  · intro hcond
    rcases Nat.eq_zero_or_pos (w.toNat * h.toNat) with hzero | hpos
    · have hno : ∀ x y : BitVec 32, x < w → y < h → False := fun x y hx hy => by
        have hx : x.toNat < w.toNat := hx
        have hy : y.toNat < h.toNat := hy
        rcases Nat.mul_eq_zero.1 hzero with h0 | h0 <;> omega
      refine ⟨fun x y hx hy => (hno x y hx hy).elim, fun m plots p hp i hi => ?_,
        fun m x y hx hy => (hno x y hx hy).elim, fun m x y hx hy => (hno x y hx hy).elim⟩
      have hi : 4 * i + 4 ≤ (w * h * 4).toNat := hi
      omega
    · have hw := Nat.pos_of_mul_pos_right hpos
      have hh := Nat.pos_of_mul_pos_left hpos
      obtain ⟨hgeom, hfits⟩ : _ ∧ _ := (hcond.resolve_left (by omega)).resolve_left (by omega)
      exact (fbAllocBuffers_laid hfits hgeom).buffersFit

/-- A screen of two rows of two pixels without padding. -/
theorem fb_buffers_fit_two_rows :
    (fbAllocBuffers ⟨0x1000000, 0, 0⟩ 2 2 8 fun _ => 0).BuffersFit :=
  (fb_buffers_fit_iff ⟨0x1000000, 0, 0⟩ 2 2 8 (fun _ => 0) (by decide) (by decide)
    (by decide)).2 (.inr (.inr (by decide)))

/-- Two rows of four pixels, eight words apart: the first pixel of the second row is the first
word of the wallpaper cache. -/
theorem fb_plot_changes_wallpaper :
    ¬ (fbAllocBuffers ⟨0x1000000, 0, 0⟩ 4 2 32 fun _ => 0).BuffersFit := by
  intro hfit
  have h := hfit.apart (fun _ => 0) [(0, 1, 1)] _ (.head _) 0 (by decide)
  exact absurd h (by decide)

end FbHeap

end OnkenOS
