import OnkenOS.Kernel.CString

/-!
# Keyboard and mouse

`drivers/ps2.c`, without the initialisation of the controller: the two interrupt handlers, which
read a status and a data byte from the controller, the decoders behind them, and the variables
they leave for the rest of the system. The screen's size, which clamps the mouse, is a
parameter.
-/

namespace OnkenOS

/-! ## Keyboard -/

/-- The static variables of the keyboard. -/
structure Kbd where
  lastKey : UInt8
  altPressed : Bool
  ctrlPressed : Bool
  shiftPressed : Bool
  superPressed : Bool
  capslockActive : Bool
  e0Mode : Bool
deriving DecidableEq

/-- The static initialisers. -/
def Kbd.static : Kbd := ⟨0, false, false, false, false, false, false⟩

/-- `kbd_us`; the entries after the last one are zero. -/
def kbdUs : List UInt8 :=
  [0, 27] ++ str "1234567890-=" ++ [8] ++
  [9] ++ str "qwertyuiop[]" ++ [10] ++
  [0] ++ str "asdfghjkl;" ++ [39, 96] ++
  [0, 92] ++ str "zxcvbnm,./" ++ [0] ++
  str "*" ++ [0] ++ str " " ++ [0, 0, 0, 0, 0, 0, 0, 0, 0, 0] ++
  [0, 0, 0, 0, 0, 0] ++ str "-" ++ [0, 0, 0] ++ str "+"

/-- `kbd_us_shifted`. -/
def kbdUsShifted : List UInt8 :=
  [0, 27] ++ str "!@#$%^&*()_+" ++ [8] ++
  [9] ++ str "QWERTYUIOP" ++ [123, 125, 10] ++
  [0] ++ str "ASDFGHJKL:" ++ [34, 126] ++
  [0, 124] ++ str "ZXCVBNM<>?" ++ [0] ++
  str "*" ++ [0] ++ str " " ++ [0, 0, 0, 0, 0, 0, 0, 0, 0, 0] ++
  [0, 0, 0, 0, 0, 0] ++ str "-" ++ [0, 0, 0] ++ str "+"

/-- The last branch of `handle_kbd`: what a make code stores in `last_key`. -/
def Kbd.keyOf (s : Kbd) (data : BitVec 8) : UInt8 :=
  let k := kbdUs.getD data.toNat 0
  let shiftLetters := s.shiftPressed ^^ s.capslockActive
  if 97 ≤ k ∧ k ≤ 122 then
    if shiftLetters then kbdUsShifted.getD data.toNat 0 else kbdUs.getD data.toNat 0
  else
    if s.shiftPressed then kbdUsShifted.getD data.toNat 0 else kbdUs.getD data.toNat 0

/-- `handle_kbd`. -/
def handleKbd (s : Kbd) (data : BitVec 8) : Kbd :=
  if data = 0xE0 then { s with e0Mode := true }
  else if s.e0Mode then
    if data = 0x5B ∨ data = 0x5C then { s with superPressed := true, e0Mode := false }
    else if data = 0xDB ∨ data = 0xDC then { s with superPressed := false, e0Mode := false }
    else { s with e0Mode := false }
  else if data = 0x38 then { s with altPressed := true }
  else if data = 0xB8 then { s with altPressed := false }
  else if data = 0x1D then { s with ctrlPressed := true }
  else if data = 0x9D then { s with ctrlPressed := false }
  else if data = 0x2A ∨ data = 0x36 then { s with shiftPressed := true }
  else if data = 0xAA ∨ data = 0xB6 then { s with shiftPressed := false }
  else if data = 0x3A then { s with capslockActive := !s.capslockActive }
  else if data < 128 then { s with lastKey := s.keyOf data }
  else s

/-- `irq1_handler`, for the status and the data byte it reads. -/
def irq1Handler (s : Kbd) (status data : BitVec 8) : Kbd :=
  if status &&& 1 ≠ 0 then
    if status &&& 0x20 = 0 then handleKbd s data else s
  else s

/-! ## Mouse -/

/-- The static variables of the mouse. A byte of `mouse_byte` is an `int8_t`, the bit pattern of
the byte that arrived. -/
structure Mouse where
  mouseX : Int
  mouseY : Int
  mouseBLeft : BitVec 8
  mouseBRight : BitVec 8
  mouseCycle : Nat
  mouseByte : Fin 4 → BitVec 8
  mouseHasWheel : Bool
  mouseScrollDelta : BitVec 8

/-- The static initialisers, and whether `ps2_init` has found a wheel. -/
def Mouse.static (mouseHasWheel : Bool) : Mouse :=
  ⟨512, 384, 0, 0, 0, fun _ => 0, mouseHasWheel, 0⟩

/-- The size of the screen. -/
structure Screen where
  fbWidth : BitVec 32
  fbHeight : BitVec 32

/-- `int d = mouse_byte[i]; if (mouse_byte[0] & sign) d |= ~0xFF;` -/
def Mouse.delta (s : Mouse) (i : Fin 4) (sign : BitVec 8) : BitVec 32 :=
  let d := (s.mouseByte i).signExtend 32
  if s.mouseByte 0 &&& sign ≠ 0 then d ||| ~~~0xFF else d

/-- `if (v < 0) v = 0; if (v > (int32_t)side - 1) v = side - 1;` The difference is taken on 32
bits. -/
def clampTo (side : BitVec 32) (v : Int) : Int :=
  let v := if v < 0 then 0 else v
  if v > (side - 1).toInt then (side - 1).toInt else v

/-- `int8_t dz = mouse_byte[3] & 0x0F; if (mouse_byte[3] & 0x08) dz |= ~0x0F;` -/
def Mouse.wheelDelta (s : Mouse) : BitVec 8 :=
  let dz := s.mouseByte 3 &&& 0x0F
  if s.mouseByte 3 &&& 0x08 ≠ 0 then dz ||| ~~~0x0F else dz

/-- What follows the label `process_mouse`. -/
def Mouse.process (s : Mouse) (scr : Screen) : Mouse :=
  let x := s.mouseX + (s.delta 1 0x10).toInt
  let y := s.mouseY - (s.delta 2 0x20).toInt
  { s with
    mouseX := clampTo scr.fbWidth x
    mouseY := clampTo scr.fbHeight y
    mouseScrollDelta :=
      if s.mouseHasWheel ∧ s.mouseCycle = 3 then -s.wheelDelta else s.mouseScrollDelta
    mouseBLeft := s.mouseByte 0 &&& 0x01
    mouseBRight := s.mouseByte 0 &&& 0x02
    mouseCycle := 0 }

/-- `mouse_byte[i] = data;` -/
def Mouse.put (s : Mouse) (i : Fin 4) (data : BitVec 8) : Mouse :=
  { s with mouseByte := Function.update s.mouseByte i data }

/-- `handle_mouse`. -/
def handleMouse (scr : Screen) (s : Mouse) (data : BitVec 8) : Mouse :=
  match s.mouseCycle with
  | 0 => if data &&& 0x08 ≠ 0 then { s.put 0 data with mouseCycle := 1 } else s
  | 1 => { s.put 1 data with mouseCycle := 2 }
  | 2 =>
      if s.mouseHasWheel then { s.put 2 data with mouseCycle := 3 }
      else (s.put 2 data).process scr
  | 3 => (s.put 3 data).process scr
  | _ => s

/-- `irq12_handler`, for the status and the data byte it reads. -/
def irq12Handler (scr : Screen) (s : Mouse) (status data : BitVec 8) : Mouse :=
  if status &&& 1 ≠ 0 then
    if status &&& 0x20 ≠ 0 then handleMouse scr s data else s
  else s

end OnkenOS
