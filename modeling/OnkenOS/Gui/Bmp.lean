import OnkenOS.Gui.Fb
import OnkenOS.Lib.While

/-!
# Drawing a picture

`draw_bmp_to_fb` of `gui/fb.c`, with every access to the bytes of the picture and every `int`
result checked: a run ends with the framebuffer, with the fault that C leaves undefined, or without
the rounds it would need. A fault needs a height of `-2 ^ 31` in the header, where the loop starts
with `h - 1` (`drawBmpToFb_safe_iff`).
-/

namespace OnkenOS

open While

/-- Why a run does not end. -/
inductive Fault where
  | outOfBounds
  | overflow
  | timeout

/-! ## Checked operations -/

/-- The number with these bytes, the lowest first. -/
def leValue : List UInt8 → Nat
  | [] => 0
  | b :: bs => b.toNat + 256 * leValue bs

/-- The number in the `n` bytes from `data + i` on. -/
def readBytes (data : List UInt8) (i n : Nat) : Except Fault Nat :=
  if i + n ≤ data.length then .ok (leValue ((data.drop i).take n)) else .error .outOfBounds

/-- `*(const int32_t*)(data + i)`. -/
def readInt32 (data : List UInt8) (i : Nat) : Except Fault Int :=
  (readBytes data i 4).map fun v => (BitVec.ofNat 32 v).toInt

/-- The result of an `int` operation. -/
def intResult (v : Int) : Except Fault Int :=
  if -2 ^ 31 ≤ v ∧ v < 2 ^ 31 then .ok v else .error .overflow

/-! ## The loops -/

/-- Where on the screen the picture goes, and how much of it. -/
structure BmpPlace where
  screenX : Int
  screenY : Int
  maxW : Int
  maxH : Int

/-- `(r << 16) | (g << 8) | b`. -/
def bmpColor (r g b : Nat) : BitVec 32 :=
  BitVec.ofNat 32 r <<< 16 ||| BitVec.ofNat 32 g <<< 8 ||| BitVec.ofNat 32 b

/-- The plot of a pixel within `max_w` and `max_h`. -/
def plotBmpPixel (p : BmpPlace) (h x y : Int) (color : BitVec 32) (s : Fb) : Except Fault Fb :=
  if x < p.maxW then do
    let top ← intResult (h - 1)
    let row ← intResult (top - y)
    if row < p.maxH then do
      let px ← intResult (p.screenX + x)
      let py ← intResult (p.screenY + row)
      return fbPlot s (BitVec.ofInt 32 px) (BitVec.ofInt 32 py) color
    else return s
  else return s

/-- The loop over the columns of a row: `x`, `data_idx` and the framebuffer. -/
structure BmpColumns where
  x : Int
  dataIdx : Nat
  fb : Fb

/-- A round of that loop. -/
def drawBmpColumn (data : List UInt8) (p : BmpPlace) (w h y : Int) (c : BmpColumns) :
    Except Fault (Round BmpColumns) :=
  if c.x < w then
    if c.dataIdx + 3 > data.length then return .leave c
    else do
      let b ← readBytes data c.dataIdx 1
      let g ← readBytes data (c.dataIdx + 1) 1
      let r ← readBytes data (c.dataIdx + 2) 1
      let fb ← plotBmpPixel p h c.x y (bmpColor r g b) c.fb
      let x ← intResult (c.x + 1)
      return .again { x := x, dataIdx := c.dataIdx + 3, fb := fb }
  else return .leave c

/-- The loop over the rows: `y`, `data_idx` and the framebuffer. -/
structure BmpRows where
  y : Int
  dataIdx : Nat
  fb : Fb

/-- A round of that loop. -/
def drawBmpRow (fuel : Nat) (data : List UInt8) (p : BmpPlace) (w h : Int) (rows : BmpRows) :
    Except Fault (Round BmpRows) :=
  if rows.y ≥ 0 then do
    let c ← loop .timeout (drawBmpColumn data p w h rows.y) fuel
      { x := 0, dataIdx := rows.dataIdx, fb := rows.fb }
    let y ← intResult (rows.y - 1)
    return .again { y := y, dataIdx := c.dataIdx, fb := c.fb }
  else return .leave rows

/-- The loops, from the first row on. -/
def drawBmpRows (fuel : Nat) (data : List UInt8) (p : BmpPlace) (w h : Int) (offset : Nat)
    (s : Fb) : Except Fault Fb := do
  let y ← intResult (h - 1)
  let rows ← loop .timeout (drawBmpRow fuel data p w h) fuel
    { y := y, dataIdx := offset, fb := s }
  return rows.fb

/-- `draw_bmp_to_fb(data, size, screen_x, screen_y, max_w, max_h)`, with at most `fuel` rounds of
each loop. -/
def drawBmpToFb (fuel : Nat) (data : List UInt8) (p : BmpPlace) (s : Fb) : Except Fault Fb :=
  if data.length < 54 then return s
  else do
    let b ← readBytes data 0 1
    if b ≠ 66 then return s
    else do
      let m ← readBytes data 1 1
      if m ≠ 77 then return s
      else do
        let w ← readInt32 data 18
        let h ← readInt32 data 22
        let bpp ← readBytes data 28 2
        let offset ← readBytes data 10 4
        if bpp ≠ 24 then return s
        else drawBmpRows fuel data p w h offset s

/-! ## Safety -/

/-- The positions on the screen are `int`s, and the sizes are not negative. -/
structure BmpPlace.InRange (p : BmpPlace) : Prop where
  maxW : 0 ≤ p.maxW
  maxH : 0 ≤ p.maxH
  left : -2 ^ 31 ≤ p.screenX
  right : p.screenX + p.maxW ≤ 2 ^ 31
  top : -2 ^ 31 ≤ p.screenY
  bottom : p.screenY + p.maxH ≤ 2 ^ 31

/-- The header is that of a picture to draw, and its height is the least `int`. -/
structure BmpOverflows (data : List UInt8) : Prop where
  size : 54 ≤ data.length
  b : data[0]? = some 66
  m : data[1]? = some 77
  bpp : (data.drop 28).take 2 = [24, 0]
  height : (data.drop 22).take 4 = [0, 0, 0, 0x80]

/-- Numbers of the same width are equal only if their bytes are. -/
theorem leValue_inj {l l' : List UInt8} (hlen : l.length = l'.length)
    (h : leValue l = leValue l') : l = l' := by
  induction l generalizing l' with
  | nil => exact (List.length_eq_zero_iff.1 hlen.symm).symm
  | cons b l ih =>
      cases l' with
      | nil => cases hlen
      | cons b' l' =>
          have hb := b.toNat_lt
          have hb' := b'.toNat_lt
          simp only [leValue] at h
          have hhead : b = b' := UInt8.toNat_inj.1 (by omega)
          rw [hhead, ih (Nat.succ.inj hlen) (by omega)]

/-- A number of `n` bytes is below `256 ^ n`. -/
theorem leValue_lt (l : List UInt8) : leValue l < 256 ^ l.length := by
  induction l with
  | nil => exact Nat.one_pos
  | cons b l ih =>
      have hb := b.toNat_lt
      rw [leValue, List.length_cons, Nat.pow_succ]
      omega

section
variable {data : List UInt8} {p : BmpPlace} {s : Fb} {w h x y : Int} {i n fuel : Nat}

/-- A read within the data gives the number that stands there. -/
theorem readBytes_ok (hi : i + n ≤ data.length) :
    readBytes data i n = .ok (leValue ((data.drop i).take n)) := if_pos hi

/-- An operation whose result is an `int` does not overflow. -/
theorem intResult_ok {v : Int} (hlo : -2 ^ 31 ≤ v) (hhi : v < 2 ^ 31) : intResult v = .ok v :=
  if_pos ⟨hlo, hhi⟩

/-- The rows are counted from the top of the screen, and a pixel beyond `max_w` or `max_h` is left
out; no sum on the way leaves the range of an `int`. -/
theorem plotBmpPixel_ok (hp : p.InRange) (hx : 0 ≤ x) (hy : 0 ≤ y) (hyh : y < h)
    (hh : h < 2 ^ 31) (color : BitVec 32) :
    plotBmpPixel p h x y color s = .ok
      (if x < p.maxW ∧ h - 1 - y < p.maxH then
        fbPlot s (BitVec.ofInt 32 (p.screenX + x)) (BitVec.ofInt 32 (p.screenY + (h - 1 - y)))
          color
      else s) := by
  obtain ⟨hmaxW, hmaxH, hleft, hright, htop, hbottom⟩ := hp
  unfold plotBmpPixel
  simp only [bind]
  split
  · next hcol =>
      rw [intResult_ok (by omega) (by omega), ok_bind, intResult_ok (by omega) (by omega), ok_bind]
      split
      · next hrow =>
          rw [intResult_ok (by omega) (by omega), ok_bind, intResult_ok (by omega) (by omega),
            ok_bind, if_pos ⟨hcol, hrow⟩]
          rfl
      · next hrow => rw [if_neg fun h => hrow h.2]; rfl
  · next hcol => rw [if_neg fun h => hcol h.1]; rfl

/-- The colour stored at an index. -/
def bmpColorAt (data : List UInt8) (i : Nat) : BitVec 32 :=
  bmpColor (leValue ((data.drop (i + 2)).take 1)) (leValue ((data.drop (i + 1)).take 1))
    (leValue ((data.drop i).take 1))

/-- A round for a pixel whose three bytes are in the data ends without a fault, and plots it where
it is within the limits. -/
theorem drawBmpColumn_ok (hp : p.InRange) (hw : w < 2 ^ 31) (hy : 0 ≤ y) (hyh : y < h)
    (hh : h < 2 ^ 31) (hx : 0 ≤ x) (hxw : x < w) (hi : i + 3 ≤ data.length) :
    drawBmpColumn data p w h y { x := x, dataIdx := i, fb := s } = .ok (.again
      { x := x + 1
        dataIdx := i + 3
        fb :=
          if x < p.maxW ∧ h - 1 - y < p.maxH then
            fbPlot s (BitVec.ofInt 32 (p.screenX + x))
              (BitVec.ofInt 32 (p.screenY + (h - 1 - y))) (bmpColorAt data i)
          else s }) := by
  unfold drawBmpColumn
  simp only [bind]
  rw [if_pos hxw, if_neg (Nat.not_lt.2 hi), readBytes_ok (by omega), ok_bind,
    readBytes_ok (by omega), ok_bind, readBytes_ok (by omega), ok_bind,
    plotBmpPixel_ok hp hx hy hyh hh, ok_bind, intResult_ok (by omega) (by omega), ok_bind]
  rfl

/-- Where the data end before the next pixel, the row ends. -/
theorem drawBmpColumn_end {c : BmpColumns} (hxw : c.x < w) (hend : data.length < c.dataIdx + 3) :
    drawBmpColumn data p w h y c = .ok (.leave c) := by
  unfold drawBmpColumn
  rw [if_pos hxw, if_pos hend]
  rfl

/-- After the last column the row ends. -/
theorem drawBmpColumn_done {c : BmpColumns} (hxw : w ≤ c.x) :
    drawBmpColumn data p w h y c = .ok (.leave c) := if_neg (not_lt.2 hxw)

/-- A row is drawn, or left where the bytes end. The columns that are left go down with every round.
-/
theorem loop_drawBmpColumn_ok (hp : p.InRange) (hw : w < 2 ^ 31) (hy : 0 ≤ y) (hyh : y < h)
    (hh : h < 2 ^ 31) :
    ∃ c, loop .timeout (drawBmpColumn data p w h y) (2 ^ 31)
      { x := 0, dataIdx := i, fb := s } = .ok c := by
  have hstart : (w - 0).toNat < 2 ^ 31 := by omega
  have hloop : ∃ c, loop .timeout (drawBmpColumn data p w h y) (2 ^ 31)
      { x := 0, dataIdx := i, fb := s } = .ok c ∧ True := by
    refine loop_spec (fun c => 0 ≤ c.x) (fun c => (w - c.x).toNat) _ (fun c hx => ?_)
      (Int.le_refl 0) hstart
    rcases lt_or_ge c.x w with hxw | hxw
    · rcases Nat.lt_or_ge data.length (c.dataIdx + 3) with hend | hi
      · exact .inr ⟨c, drawBmpColumn_end hxw hend, trivial⟩
      · refine .inl ⟨_, drawBmpColumn_ok hp hw hy hyh hh hx hxw hi, Int.le_add_one hx, ?_⟩
        change (w - (c.x + 1)).toNat < (w - c.x).toNat
        omega
    · exact .inr ⟨c, drawBmpColumn_done hxw, trivial⟩
  obtain ⟨c, hc, -⟩ := hloop
  exact ⟨c, hc⟩

/-- All rows are drawn, or left, with fewer than `2 ^ 31` rounds: the height is an `int`. -/
theorem loop_drawBmpRow_ok (hp : p.InRange) (hw : w < 2 ^ 31) (hyh : y < h) (hh : h < 2 ^ 31) :
    ∃ rows, loop .timeout (drawBmpRow (2 ^ 31) data p w h) (2 ^ 31)
      { y := y, dataIdx := i, fb := s } = .ok rows := by
  have hstart : (y + 1).toNat < 2 ^ 31 := by omega
  have hloop : ∃ rows, loop .timeout (drawBmpRow (2 ^ 31) data p w h) (2 ^ 31)
      { y := y, dataIdx := i, fb := s } = .ok rows ∧ True := by
    refine loop_spec (fun rows => rows.y < h) (fun rows => (rows.y + 1).toNat) _
      (fun rows hrows => ?_) hyh hstart
    rcases lt_or_ge rows.y 0 with hneg | hy
    · exact .inr ⟨rows, if_neg (not_le.2 hneg), trivial⟩
    · have hrow : ∃ c, loop .timeout (drawBmpColumn data p w h rows.y) (2 ^ 31)
          { x := 0, dataIdx := rows.dataIdx, fb := rows.fb } = .ok c :=
        loop_drawBmpColumn_ok hp hw hy hrows hh
      obtain ⟨c, hc⟩ := hrow
      refine .inl ⟨{ y := rows.y - 1, dataIdx := c.dataIdx, fb := c.fb }, ?_, ?_, ?_⟩
      · unfold drawBmpRow
        simp only [bind]
        rw [if_pos hy, hc, ok_bind, intResult_ok (by omega) (by omega), ok_bind]
        rfl
      · change rows.y - 1 < h
        omega
      · change (rows.y - 1 + 1).toNat < (rows.y + 1).toNat
        omega
  obtain ⟨rows, hrows, -⟩ := hloop
  exact ⟨rows, hrows⟩

/-- Whatever the size of the picture in the header is, the loops end without a fault: each index is
tested before the bytes at it are read. -/
theorem drawBmpRows_ok (hp : p.InRange) (hw : w < 2 ^ 31) (hlow : -2 ^ 31 < h) (hh : h < 2 ^ 31)
    (offset : Nat) : ∃ s', drawBmpRows (2 ^ 31) data p w h offset s = .ok s' := by
  have hrun : ∃ rows, loop .timeout (drawBmpRow (2 ^ 31) data p w h) (2 ^ 31)
      { y := h - 1, dataIdx := offset, fb := s } = .ok rows :=
    loop_drawBmpRow_ok hp hw (by omega) hh
  obtain ⟨rows, hrows⟩ := hrun
  refine ⟨rows.fb, ?_⟩
  unfold drawBmpRows
  simp only [bind]
  rw [intResult_ok (by omega) (by omega), ok_bind, hrows, ok_bind]
  rfl

/-! ### The header -/

/-- An `int32_t` field within the data is read as the four bytes make it, with its sign. -/
theorem readInt32_ok (hi : i + 4 ≤ data.length) :
    readInt32 data i = .ok (BitVec.ofNat 32 (leValue ((data.drop i).take 4))).toInt := by
  unfold readInt32
  rw [readBytes_ok hi]
  rfl

/-- A field with the number of some bytes holds these bytes. -/
theorem take_drop_eq_of_leValue (i : Nat) (l : List UInt8) (hi : i + l.length ≤ data.length)
    (h : leValue ((data.drop i).take l.length) = leValue l) : (data.drop i).take l.length = l := by
  refine leValue_inj ?_ h
  rw [List.length_take, List.length_drop]
  omega

/-- A field of `n` bytes in the header is below `256 ^ n`, also where the data end in it. -/
theorem leValue_take_lt (i n : Nat) : leValue ((data.drop i).take n) < 256 ^ n := by
  refine Nat.lt_of_lt_of_le (leValue_lt _) (Nat.pow_le_pow_right (by omega) ?_)
  rw [List.length_take]
  exact Nat.min_le_left _ _

/-- The least `int` as an unsigned number is `2 ^ 31`, so its bytes are determined. -/
theorem toNat_of_toInt_least {v : Nat} (hv : v < 256 ^ 4)
    (h : (BitVec.ofNat 32 v).toInt = -2 ^ 31) : v = 2 ^ 31 := by
  rw [BitVec.toInt_eq_toNat_cond, BitVec.toNat_ofNat, Nat.mod_eq_of_lt (by omega)] at h
  split at h <;> omega

/-- A field of one byte is that byte. -/
theorem leValue_take_one_iff (hi : i < data.length) (b : UInt8) :
    leValue ((data.drop i).take 1) = b.toNat ↔ data[i]? = some b := by
  rw [List.take_one, List.head?_drop, List.getElem?_eq_getElem hi]
  simp only [Option.toList_some, leValue, Nat.mul_zero, Nat.add_zero, Option.some.injEq,
    UInt8.toNat_inj]

/-- A run over any bytes ends with the framebuffer, unless the height overflows. -/
theorem drawBmpToFb_ok (hp : p.InRange) (hheight : ¬ BmpOverflows data) :
    ∃ s', drawBmpToFb (2 ^ 31) data p s = .ok s' := by
  unfold drawBmpToFb
  simp only [bind]
  split
  · exact ⟨s, rfl⟩
  · next hsize =>
      rw [readBytes_ok (by omega), ok_bind]
      split
      · exact ⟨s, rfl⟩
      · next hb =>
          rw [readBytes_ok (by omega), ok_bind]
          split
          · exact ⟨s, rfl⟩
          · next hm =>
              rw [readInt32_ok (by omega), ok_bind, readInt32_ok (by omega), ok_bind,
                readBytes_ok (by omega), ok_bind, readBytes_ok (by omega), ok_bind]
              split
              · exact ⟨s, rfl⟩
              · next hbpp =>
                  refine drawBmpRows_ok hp BitVec.toInt_lt
                    (lt_of_le_of_ne (BitVec.le_toInt _) fun hleast => hheight ?_)
                    BitVec.toInt_lt _
                  exact {
                    size := by omega
                    b := (leValue_take_one_iff (by omega) 66).1 (not_not.1 hb)
                    m := (leValue_take_one_iff (by omega) 77).1 (not_not.1 hm)
                    bpp := take_drop_eq_of_leValue 28 [24, 0] (by change 30 ≤ _; omega)
                      (not_not.1 hbpp)
                    height := take_drop_eq_of_leValue 22 [0, 0, 0, 0x80] (by change 26 ≤ _; omega)
                      (toNat_of_toInt_least (leValue_take_lt 22 4) hleast.symm) }

/-- With that height the first `int` operation overflows: the source negates it before it looks at a
row. -/
theorem drawBmpToFb_overflow (h : BmpOverflows data) (fuel : Nat) :
    drawBmpToFb fuel data p s = .error .overflow := by
  obtain ⟨hsize, hb, hm, hbpp, hheight⟩ := h
  have hb' : leValue ((data.drop 0).take 1) = 66 := (leValue_take_one_iff (by omega) 66).2 hb
  have hm' : leValue ((data.drop 1).take 1) = 77 := (leValue_take_one_iff (by omega) 77).2 hm
  unfold drawBmpToFb
  simp only [bind]
  rw [if_neg (by omega), readBytes_ok (by omega), ok_bind, if_neg (not_not.2 hb'),
    readBytes_ok (by omega), ok_bind, if_neg (not_not.2 hm'), readInt32_ok (by omega), ok_bind,
    readInt32_ok (by omega), ok_bind, readBytes_ok (by omega), ok_bind, readBytes_ok (by omega),
    ok_bind, hbpp, if_neg (by decide), hheight]
  rfl

/-- Drawing is safe exactly for the bytes that are not such a picture: for these, every access is
below the size, no `int` overflows, and no loop takes `2 ^ 31` rounds. -/
theorem drawBmpToFb_safe_iff (data : List UInt8) (s : Fb) (hp : p.InRange) :
    (∃ s', drawBmpToFb (2 ^ 31) data p s = .ok s') ↔ ¬ BmpOverflows data := by
  refine ⟨fun ⟨s', hs'⟩ hheight => ?_, drawBmpToFb_ok hp⟩
  rw [drawBmpToFb_overflow hheight] at hs'
  cases hs'

end

/-- A header with the least height. -/
def leastHeight : List UInt8 :=
  [66, 77] ++ List.replicate 20 0 ++ [0, 0, 0, 0x80] ++ [1, 0] ++ [24, 0] ++ List.replicate 24 0

/-- The header with the height `-2 ^ 31` is one that overflows. -/
theorem leastHeight_overflows : BmpOverflows leastHeight where
  size := by decide
  b := rfl
  m := rfl
  bpp := rfl
  height := rfl

/-- The upper left of the screen. -/
def upperLeft : BmpPlace where
  screenX := 0
  screenY := 0
  maxW := 64
  maxH := 64

/-- The place in the upper left is in range. -/
theorem upperLeft_inRange : upperLeft.InRange where
  maxW := by decide
  maxH := by decide
  left := by decide
  right := by decide
  top := by decide
  bottom := by decide

/-- The equivalence for the header with the least height, at the upper left of the screen: the
negation of the height is no `int`. -/
theorem drawBmpToFb_safe_iff_upperLeft :
    upperLeft.InRange ∧ ((∃ s', drawBmpToFb (2 ^ 31) leastHeight upperLeft Fb.static = .ok s') ↔
      ¬ BmpOverflows leastHeight) :=
  ⟨upperLeft_inRange, drawBmpToFb_safe_iff leastHeight Fb.static upperLeft_inRange⟩

/-- So not all data are safe to draw: for that header no number of rounds brings the call to its end
without a fault. -/
theorem drawBmpToFb_leastHeight :
    ¬ ∀ (data : List UInt8) (p : BmpPlace) (s : Fb), p.InRange →
      ∃ fuel s', drawBmpToFb fuel data p s = .ok s' := by
  intro h
  obtain ⟨fuel, s', hs'⟩ := h leastHeight upperLeft Fb.static upperLeft_inRange
  rw [drawBmpToFb_overflow leastHeight_overflows] at hs'
  cases hs'

end OnkenOS
