import OnkenOS.Kernel.Fs

/-!
# The first files

`vfs_init` of `kernel/fs.c`, with `create_demo_bmp`, and the files it writes. The bytes of
`logo.png` are those of the array in `apps/imageviewer/logo_png.h`, a parameter here.
-/

namespace OnkenOS

/-! ## Texts -/

/-- `readme_text`. -/
def readmeText : List UInt8 :=
  str "=========================================\n" ++
  str "         WELCOME TO ONKEN OS v3.0        \n" ++
  str "=========================================\n\n" ++
  str "Onken OS is a freestanding modular x86_64\n" ++
  str "operating system written in C and ASM.\n\n" ++
  str "Core Capabilities:\n" ++
  str " - Retro Amiga/AROS Window Compositor\n" ++
  str " - Dynamic Application Registry\n" ++
  str " - PS/2 Keyboard & Mouse Drivers\n" ++
  str " - PIT-driven Preemptive Scheduler\n" ++
  str " - PCI Bus Enumeration\n" ++
  str " - CMOS Real-Time Clock\n" ++
  str " - PC Speaker Sound Driver\n" ++
  str " - BMP Image Viewer\n" ++
  str " - RAM Disk VFS Storage\n\n" ++
  str "Double-click files in Explorer to open!\n" ++
  str "Made by Ayham & Mason.\n"

/-- `limine_conf`. -/
def limineConf : List UInt8 :=
  str "TIMEOUT=5\n" ++
  str "INTERFACE_RESOLUTION=1280x720x32\n\n" ++
  str ":Onken OS\n" ++
  str "PROTOCOL=limine\n" ++
  str "KERNEL_PATH=boot:///oneko.bin\n"

/-- `makefile_content`. -/
def makefileContent : List UInt8 :=
  str "CC = gcc\n" ++
  str "CFLAGS = -m64 -ffreestanding -O2 -Wall\n" ++
  str "LDFLAGS = -nostdlib -static\n\n" ++
  str "all: oneko.iso\n" ++
  str "\t@echo 'Build finished!'\n"

/-- `hello_c`. -/
def helloC : List UInt8 :=
  str "#include <stdint.h>\n\n" ++
  str "void main(void) \x7b\n" ++
  str "    // Hello from Onken OS!\n" ++
  str "    volatile char* vga = (char*)0xB8000;\n" ++
  str "    vga[0] = 'H';\n" ++
  str "    vga[1] = 0x0F;\n" ++
  str "\x7d\n"

/-- `notes`. -/
def notes : List UInt8 :=
  str "--- Dev Notes ---\n" ++
  str "TODO: Implement FAT32 disk driver\n" ++
  str "TODO: Add AC97 audio support\n" ++
  str "TODO: Ring 3 userland processes\n" ++
  str "DONE: PCI bus enumeration\n" ++
  str "DONE: RTC real-time clock\n" ++
  str "DONE: PC Speaker sound\n"

/-! ## The demo picture -/

/-- The bytes of an integer of `n` bytes, as `memcpy` copies them from memory. -/
def littleEndian (n v : Nat) : List UInt8 := (List.range n).map fun i => (v / 256 ^ i).toUInt8

/-- `row_padding`. -/
def rowPadding (w : Nat) : Nat := (4 - w * 3 % 4) % 4

/-- `total_pixel_bytes`. -/
def totalPixelBytes (w h : Nat) : Nat := (w * 3 + rowPadding w) * h

/-- `header`. -/
def bmpHeader (w h : Nat) : List UInt8 :=
  str "BM" ++ littleEndian 4 (54 + totalPixelBytes w h) ++ [0, 0, 0, 0] ++ littleEndian 4 54 ++
  littleEndian 4 40 ++ littleEndian 4 w ++ littleEndian 4 h ++ littleEndian 2 1 ++
  littleEndian 2 24 ++ [0, 0, 0, 0] ++ littleEndian 4 (totalPixelBytes w h) ++
  List.replicate 16 0

/-- The three bytes of a pixel, in the order in which they are stored. -/
def bmpPixel (w h x y : Nat) : List UInt8 :=
  let cy := h / 2
  let dx : Int := x - (w / 2 : Nat)
  let dy : Int := y - cy
  let dist := dx * dx + dy * dy
  let sunR : Int := (w / 3 : Nat)
  if dist < sunR * sunR then
    if y % 6 < 2 ∧ y > cy then [0x00, 0x40, 0x80] else [0x00, 0xB3, 0xFF]
  else if dist < (w / 2 : Nat) * (w / 2 : Nat) then [0x22, 0x55, 0xCC]
  else [(0x60 - y * 0x40 / h).toUInt8, (0x08 + y * 0x30 / h).toUInt8, (0x20 + y * 0x80 / h).toUInt8]

/-- What `create_demo_bmp` stores in the file. -/
def bmpBytes (w h : Nat) : List UInt8 :=
  bmpHeader w h ++ (List.range h).flatMap fun y =>
    ((List.range w).flatMap fun x => bmpPixel w h x y) ++ List.replicate (rowPadding w) 0

/-- The memory behind a `char*` to the bytes of an array. -/
def bytesOf (l : List UInt8) : Bytes := fun i => l.getD i 0

/-- `create_demo_bmp`. -/
def createDemoBmp (files : Files) (name : List UInt8) (w h : Nat) : Files :=
  if 54 + totalPixelBytes w h > maxFileSize then files
  else
    let files := (vfsCreate files name).1
    match vfsOpen files name with
    | none => files
    | some i =>
        Function.update files i
          ((files i).store (bytesOf (bmpBytes w h)) (bmpBytes w h).length)

/-! ## `vfs_init` -/

/-- `vfs_create(name); vfs_write(name, text, strlen(text));` -/
def addText (files : Files) (name text : List UInt8) : Files :=
  (vfsWrite (vfsCreate files name).1 name (bytesOf text) (strlen text)).1

/-- `vfs_init`. -/
def vfsInit (logoPng : List UInt8) : Files :=
  let files := Files.zero
  let files := addText files (str "readme.txt") readmeText
  let files := addText files (str "limine.conf") limineConf
  let files := addText files (str "Makefile") makefileContent
  let files := addText files (str "hello.c") helloC
  let files := addText files (str "notes.txt") notes
  let files := createDemoBmp files (str "sunset.bmp") 48 48
  let files := (vfsCreate files (str "logo.png")).1
  (vfsWrite files (str "logo.png") (bytesOf logoPng) logoPng.length).1

end OnkenOS
