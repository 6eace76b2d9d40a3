import OnkenOS.Kernel.Sprintf
import OnkenOS.Lib.While

/-!
# `xsprintf`, in memory

`xsprintf` as it moves through memory, with every byte of the format that it reads. Each test of
`*format` is a read, and each `format++` moves the pointer whatever it points to. As long as the
pointer is in the string, a round of the loop takes a character or a conversion off what is left of
it (`FormatScan.At`). What the call stores and returns is what `xsprintfCall` says
(`xsprintfAt_refines`); what it reads is the subject of `OnkenOS.Kernel.SprintfReads`.
-/

namespace OnkenOS

open While

/-! ## A call -/

/-- Why a call does not end: there is no argument of the type it takes, or a loop goes on. -/
inductive FormatFault where
  | argument
  | timeout

/-- The variables of a call, with what is stored at `str` and the addresses of the bytes of the
format that were read. -/
structure FormatScan where
  format : Nat
  args : List Arg
  str : List UInt8
  written : BitVec 32
  reads : List Nat

/-- The variables of a conversion. An `int` that overflows wraps around. -/
structure Field where
  width : BitVec 32
  padZero : Bool
  alignLeft : Bool

namespace FormatScan

/-- `*format`. Behind the end of the memory there is a zero. -/
def read (mem : List UInt8) (s : FormatScan) : UInt8 × FormatScan :=
  (mem.getD s.format 0, { s with reads := s.format :: s.reads })

/-- `format++`. -/
def advance (s : FormatScan) : FormatScan := { s with format := s.format + 1 }

/-- `*str++ = c; written++;` for some bytes. -/
def put (s : FormatScan) (bytes : List UInt8) : FormatScan :=
  { s with str := s.str ++ bytes, written := s.written + BitVec.ofNat 32 bytes.length }

/-- `if (*format == c) { flag = 1; format++; }`. -/
def scanFlagAt (mem : List UInt8) (c : UInt8) (s : FormatScan) : Bool × FormatScan :=
  let (d, s) := s.read mem
  if d = c then (true, s.advance) else (false, s)

/-- A round of `while (*format >= '0' && *format <= '9')`. -/
def widthRound (mem : List UInt8) (p : BitVec 32 × FormatScan) :
    Except FormatFault (Round (BitVec 32 × FormatScan)) :=
  let (c, s) := p.2.read mem
  if 48 ≤ c ∧ c ≤ 57 then
    .ok (.again (p.1 * 10 + BitVec.ofNat 32 (c.toNat - 48), s.advance))
  else .ok (.leave (p.1, s))

/-- The flags and the width after a percent sign. -/
def scanConvAt (fuel : Nat) (mem : List UInt8) (s : FormatScan) :
    Except FormatFault (Field × FormatScan) :=
  let (alignLeft, s) := s.scanFlagAt mem 45
  let (padZero, s) := s.scanFlagAt mem 48
  (loop .timeout (widthRound mem) fuel (0, s)).bind fun (width, s) =>
    .ok (⟨width, padZero, alignLeft⟩, s)

end FormatScan

/-- `if (pad > 0) while (pad--) *str++ = c;`. -/
def padding (pad : BitVec 32) (c : UInt8) : List UInt8 :=
  if 0 < pad.toInt then List.replicate pad.toNat c else []

/-- What `%s` writes. -/
def Field.str (f : Field) (s : List UInt8) : List UInt8 :=
  let pad := padding (f.width - BitVec.ofNat 32 (strlen s)) 32
  if f.alignLeft then cstr s ++ pad else pad ++ cstr s

/-- What `%d` writes. -/
def Field.int (f : Field) (v : BitVec 32) : List UInt8 :=
  let num := intBuf (if v.toInt < 0 then -v else v)
  (if v.toInt < 0 then [45] else []) ++
    padding (f.width - BitVec.ofNat 32 num.length) (if f.padZero then 48 else 32) ++ num.reverse

namespace FormatScan

/-- The branches of a conversion, by its last character. -/
def convert (s : FormatScan) (c : UInt8) (f : Field) : Except FormatFault FormatScan :=
  if c = 115 then
    match s.args with
    | .str t :: args => .ok ({ s with args := args }.put (f.str t))
    | _ => .error .argument
  else if c = 100 then
    match s.args with
    | .int v :: args => .ok ({ s with args := args }.put (f.int v))
    | _ => .error .argument
  else if c = 99 then
    match s.args with
    | .int v :: args => .ok ({ s with args := args }.put [v.toNat.toUInt8])
    | _ => .error .argument
  else .ok (s.put [37, c])

/-- A round of `while (*format)`. After the last one the NUL is stored. -/
def formatRound (fuel : Nat) (mem : List UInt8) (s : FormatScan) :
    Except FormatFault (Round FormatScan) :=
  let (c, s) := s.read mem
  if c = 0 then .ok (.leave { s with str := s.str ++ [0] })
  else if c = 37 then
    (s.advance.scanConvAt fuel mem).bind fun (f, s) =>
      let (c, s) := s.read mem
      (s.convert c f).bind fun s => .ok (.again s.advance)
  else .ok (.again (s.put [c]).advance)

end FormatScan

/-- `xsprintf(str, format, ...)`, with at most `fuel` rounds of each loop. -/
def xsprintfAt (fuel : Nat) (mem : List UInt8) (format : Nat) (args : List Arg) :
    Except FormatFault FormatScan :=
  loop .timeout (FormatScan.formatRound fuel mem) fuel ⟨format, args, [], 0, []⟩

/-! ## Moving through a string -/

/-- What is left of the format is `w`, and its NUL is at `last`. -/
structure FormatScan.At (mem : List UInt8) (last : Nat) (s : FormatScan) (w : List UInt8) :
    Prop where
  left : cstr (mem.drop s.format) = w
  nul : s.format + w.length = last

/-- Only the pointer has moved, not back, and no byte behind `last` was read. -/
structure FormatScan.Moves (last : Nat) (s s' : FormatScan) : Prop where
  format : s.format ≤ s'.format
  args : s'.args = s.args
  str : s'.str = s.str
  written : s'.written = s.written
  reads : ∀ a ∈ s'.reads, a ∈ s.reads ∨ a ≤ last

namespace FormatScan

section
variable {mem w : List UInt8} {last fuel : Nat} {s s' s'' : FormatScan} {c : UInt8}

/-- A step that does not touch the format moves the pointer by nothing. -/
theorem Moves.refl (last : Nat) (s : FormatScan) : Moves last s s :=
  ⟨Nat.le_refl _, rfl, rfl, rfl, fun _ ha => .inl ha⟩

/-- Motions one after the other are a motion: each of them starts where the other ended, and reads
no byte behind `last`. -/
theorem Moves.trans (h : Moves last s s') (h' : Moves last s' s'') : Moves last s s'' where
  format := Nat.le_trans h.format h'.format
  args := h'.args.trans h.args
  str := h'.str.trans h.str
  written := h'.written.trans h.written
  reads a ha := (h'.reads a ha).elim (h.reads a) .inr

/-- `format++` after a motion is a motion, as the pointer goes forward. -/
theorem Moves.advance (h : Moves last s s') : Moves last s s'.advance :=
  ⟨Nat.le_succ_of_le h.format, h.args, h.str, h.written, h.reads⟩

/-- The byte under the pointer: the next character of the string, or its NUL. -/
theorem At.read (h : At mem last s w) : (s.read mem).1 = w.headD 0 := by
  have hbyte : mem.getD s.format 0 = (mem.drop s.format).headD 0 := by
    simp [List.getD_eq_getElem?_getD, List.headD_eq_head?_getD]
  have hhead (l : List UInt8) : (cstr l).headD 0 = l.headD 0 := by
    cases l with
    | nil => rfl
    | cons c l =>
        rw [cstr_cons]
        split
        · next hc => rw [hc]; rfl
        · rfl
  rw [← h.left, hhead]
  exact hbyte

/-- What is left of a string of C has no NUL in it. -/
theorem At.ne_zero (h : At mem last s (c :: w)) : c ≠ 0 := by
  rintro rfl
  exact zero_not_mem_cstr (mem.drop s.format) (h.left ▸ List.mem_cons_self)

/-- A read leaves the pointer where it is. -/
theorem At.of_read (h : At mem last s w) : At mem last (s.read mem).2 w := ⟨h.left, h.nul⟩

/-- Reading `*format` records an address that is not behind `last`, and moves nothing. -/
theorem At.moves_read (h : At mem last s w) : Moves last s (s.read mem).2 := by
  refine ⟨Nat.le_refl _, rfl, rfl, rfl, fun a ha => ?_⟩
  have hlast := h.nul
  rcases List.mem_cons.1 ha with rfl | ha
  · exact .inr (by omega)
  · exact .inl ha

/-- `format++` takes the first character off what is left. -/
theorem At.advance (h : At mem last s (c :: w)) : At mem last s.advance w := by
  constructor
  · have hone : 1 ≤ strlen (mem.drop s.format) := by
      unfold strlen
      rw [h.left, List.length_cons]
      omega
    have hdrop := cstr_drop hone
    rw [List.drop_drop, h.left] at hdrop
    exact hdrop
  · have hlast := h.nul
    rw [List.length_cons] at hlast
    change s.format + 1 + w.length = last
    omega

/-! ## The flags and the width -/

/-- Reading a flag does not make the rest of the format longer. -/
theorem length_scanFlag_le (c : UInt8) (w : List UInt8) : (scanFlag c w).2.length ≤ w.length := by
  cases w with
  | nil => exact Nat.le_refl 0
  | cons d w =>
      rw [scanFlag]
      split
      · exact Nat.le_succ _
      · exact Nat.le_refl _

/-- In memory a flag is read as it is on the list. -/
theorem At.scanFlagAt (h : At mem last s w) (hc : c ≠ 0) :
    (s.scanFlagAt mem c).1 = (scanFlag c w).1 ∧
      At mem last (s.scanFlagAt mem c).2 (scanFlag c w).2 ∧
      Moves last s (s.scanFlagAt mem c).2 := by
  have hread := h.read
  unfold FormatScan.scanFlagAt
  cases w with
  | nil =>
      rw [List.headD_nil] at hread
      simp only [hread, if_neg hc.symm]
      exact ⟨rfl, h.of_read, h.moves_read⟩
  | cons d w =>
      rw [List.headD_cons] at hread
      simp only [hread, scanFlag]
      split
      · exact ⟨rfl, h.of_read.advance, h.moves_read.advance⟩
      · exact ⟨rfl, h.of_read, h.moves_read⟩

/-- A round of the width, on what is left of the format. -/
theorem At.widthRound (h : At mem last s w) (width : Nat) :
    (∃ s₁ w₁ width₁, widthRound mem (BitVec.ofNat 32 width, s) =
        .ok (.again (BitVec.ofNat 32 width₁, s₁)) ∧ At mem last s₁ w₁ ∧ Moves last s s₁ ∧
        s.format < s₁.format ∧ scanWidth width w = scanWidth width₁ w₁) ∨
      ∃ s₁, widthRound mem (BitVec.ofNat 32 width, s) =
        .ok (.leave (BitVec.ofNat 32 width, s₁)) ∧ At mem last s₁ w ∧ Moves last s s₁ ∧
        scanWidth width w = (width, w) := by
  have hread := h.read
  unfold FormatScan.widthRound
  cases w with
  | nil =>
      rw [List.headD_nil] at hread
      refine .inr ⟨(s.read mem).2, ?_, h.of_read, h.moves_read, rfl⟩
      simp only [hread]
      exact if_neg (by decide)
  | cons d w =>
      rw [List.headD_cons] at hread
      by_cases hd : 48 ≤ d ∧ d ≤ 57
      · refine .inl ⟨_, w, width * 10 + (d.toNat - 48), ?_, h.of_read.advance,
          h.moves_read.advance, Nat.lt_succ_self _, ?_⟩
        · simp only [hread, if_pos hd]
          rw [BitVec.ofNat_add, BitVec.ofNat_mul]
          rfl
        · rw [scanWidth, if_pos hd]
      · refine .inr ⟨(s.read mem).2, ?_, h.of_read, h.moves_read, ?_⟩
        · simp only [hread, if_neg hd]
        · rw [scanWidth, if_neg hd]

/-- In memory a width is read as it is on the list, with a round for each character that is left. By
induction on the rounds. -/
theorem At.width (h : At mem last s w) (hfuel : w.length < fuel) :
    ∃ s₁, loop .timeout (FormatScan.widthRound mem) fuel (0, s) =
        .ok (BitVec.ofNat 32 (scanWidth 0 w).1, s₁) ∧
      At mem last s₁ (scanWidth 0 w).2 ∧ Moves last s s₁ := by
  have hlast := h.nul
  have hrounds : last - s.format < fuel := by omega
  have hloop : ∃ p, loop .timeout (FormatScan.widthRound mem) fuel (0, s) = .ok p ∧
      p.1 = BitVec.ofNat 32 (scanWidth 0 w).1 ∧ At mem last p.2 (scanWidth 0 w).2 ∧
      Moves last s p.2 := by
    refine loop_spec
      (fun p => ∃ width w₁, p.1 = BitVec.ofNat 32 width ∧ At mem last p.2 w₁ ∧
        Moves last s p.2 ∧ scanWidth 0 w = scanWidth width w₁)
      (fun p => last - p.2.format) _ ?_ ⟨0, w, rfl, h, Moves.refl last s, rfl⟩ hrounds
    rintro ⟨_, s₁⟩ ⟨width, w₁, rfl, hat, hmoves, hscan⟩
    rcases hat.widthRound width with
      ⟨s₂, w₂, width₂, hround, hat₂, hmoves₂, hlt, hscan₂⟩ | ⟨s₂, hround, hat₂, hmoves₂, hscan₂⟩
    · refine .inl ⟨_, hround, ⟨width₂, w₂, rfl, hat₂, hmoves.trans hmoves₂,
        hscan.trans hscan₂⟩, ?_⟩
      have hstep : s₁.format < s₂.format := hlt
      have hlast := hat₂.nul
      change last - s₂.format < last - s₁.format
      omega
    · rw [hscan, hscan₂]
      exact .inr ⟨_, hround, rfl, hat₂, hmoves.trans hmoves₂⟩
  obtain ⟨⟨width, s₁⟩, hloop, hwidth, hat, hmoves⟩ := hloop
  exact ⟨s₁, by rw [hloop, ← hwidth], hat, hmoves⟩

/-- The conversion as it stands in the format, with its width in 32 bits. -/
def fieldOf (f : Conv) : Field := ⟨BitVec.ofNat 32 f.width, f.padZero, f.alignLeft⟩

/-- The flags and the width of a conversion, in the order of the source: each part is read in memory
as it is on the list. -/
theorem At.scanConvAt (h : At mem last s w) (hfuel : w.length < fuel) :
    ∃ s₁, s.scanConvAt fuel mem = .ok (fieldOf (scanConv w).1, s₁) ∧
      At mem last s₁ (scanConv w).2 ∧ Moves last s s₁ := by
  obtain ⟨hleft, hat, hmoves⟩ := h.scanFlagAt (c := 45) (by decide)
  obtain ⟨hzero, hat', hmoves'⟩ := hat.scanFlagAt (c := 48) (by decide)
  have hlen : (scanFlag 48 (scanFlag 45 w).2).2.length < fuel :=
    Nat.lt_of_le_of_lt (Nat.le_trans (length_scanFlag_le 48 _) (length_scanFlag_le 45 w)) hfuel
  obtain ⟨s₁, hloop, hat₁, hmoves₁⟩ := hat'.width hlen
  refine ⟨s₁, ?_, hat₁, (hmoves.trans hmoves').trans hmoves₁⟩
  unfold FormatScan.scanConvAt
  dsimp only
  rw [hloop, hleft, hzero]
  rfl

/-! ## A round -/

/-- A conversion takes an argument and stores bytes. It neither moves in the format nor reads it. -/
theorem convert_frame {f : Field} (h : s.convert c f = .ok s') :
    s'.format = s.format ∧ s'.reads = s.reads := by
  unfold FormatScan.convert at h
  split at h
  · split at h
    · cases h
      exact ⟨rfl, rfl⟩
    · cases h
  · split at h
    · split at h
      · cases h
        exact ⟨rfl, rfl⟩
      · cases h
    · split at h
      · split at h
        · cases h
          exact ⟨rfl, rfl⟩
        · cases h
      · cases h
        exact ⟨rfl, rfl⟩

/-- At the NUL the loop is left, and the NUL is stored. -/
theorem At.formatRound_nil (h : At mem last s []) (fuel : Nat) :
    formatRound fuel mem s = .ok (.leave { (s.read mem).2 with str := s.str ++ [0] }) := by
  have hread := h.read
  rw [List.headD_nil] at hread
  unfold formatRound
  dsimp only
  rw [hread, if_pos rfl]
  rfl

/-- A character outside of the conversions is copied, and the loop goes on behind it. -/
theorem At.formatRound_char (h : At mem last s (c :: w)) (hc : c ≠ 37) (fuel : Nat) :
    formatRound fuel mem s = .ok (.again ((s.read mem).2.put [c]).advance) := by
  have hread := h.read
  rw [List.headD_cons] at hread
  unfold formatRound
  dsimp only
  rw [hread, if_neg h.ne_zero, if_neg hc]

/-- A conversion: the flags and the width, then the branch of the character behind them, be this
the NUL or not. -/
theorem At.formatRound_conv (h : At mem last s (37 :: w)) (hfuel : w.length < fuel) :
    ∃ s₁, At mem last s₁ (scanConv w).2 ∧ Moves last s s₁ ∧
      formatRound fuel mem s =
        (s₁.convert ((scanConv w).2.headD 0) (fieldOf (scanConv w).1)).bind fun s =>
          .ok (.again s.advance) := by
  have hread := h.read
  rw [List.headD_cons] at hread
  obtain ⟨s₁, hscan, hat, hmoves⟩ := h.of_read.advance.scanConvAt hfuel
  refine ⟨(s₁.read mem).2, hat.of_read, (h.moves_read.advance.trans hmoves).trans hat.moves_read,
    ?_⟩
  unfold formatRound
  dsimp only
  rw [hread, if_neg (by decide), if_pos rfl, hscan, ok_bind]
  dsimp only
  rw [hat.read]

/-- Further on in the format there is less of it left. -/
theorem At.length_le {w' : List UInt8} (h : At mem last s w) (h' : At mem last s' w')
    (hle : s.format ≤ s'.format) : w'.length ≤ w.length := by
  have hnul := h.nul
  have hnul' := h'.nul
  omega

/-- Behind a character that was copied. -/
theorem At.after_char (h : At mem last s (c :: w)) :
    At mem last ((s.read mem).2.put [c]).advance w :=
  ⟨h.of_read.advance.left, h.of_read.advance.nul⟩

/-- Behind the last character of a conversion the pointer is one further: the conversion itself does
not move it. -/
theorem At.after_conv {f : Field} (h : At mem last s (c :: w)) (hconvert : s.convert c f = .ok s') :
    At mem last s'.advance w := by
  obtain ⟨hformat, -⟩ := convert_frame hconvert
  have hmoved := h.advance
  constructor
  · change cstr (mem.drop (s'.format + 1)) = w
    rw [hformat]
    exact hmoved.left
  · change s'.format + 1 + w.length = last
    rw [hformat]
    exact hmoved.nul

/-- After a conversion the pointer is behind where it was at the percent sign, so the loop makes
progress. -/
theorem Moves.lt_advance {f : Field} (h : Moves last s s') (hconvert : s'.convert c f = .ok s'') :
    s.format < s''.advance.format := by
  obtain ⟨hformat, -⟩ := convert_frame hconvert
  change s.format < s''.format + 1
  rw [hformat]
  exact Nat.lt_succ_of_le h.format

end

end FormatScan

/-! ## What is stored -/

/-- The same bytes and the same counter. -/
structure FormatScan.Agrees (s : FormatScan) (o : Written) : Prop where
  str : s.str = o.str
  written : s.written = BitVec.ofNat 32 o.written

section
variable {o o' : Written} {cs : List UInt8}

/-- Where the counter does not overflow it counts the bytes stored, and their number is an `int`. -/
theorem puts_some (h : o.puts cs = some o') :
    o' = ⟨o.str ++ cs, o.written + cs.length⟩ ∧ cs.length < 2 ^ 31 := by
  cases cs with
  | nil =>
      cases h
      exact ⟨by rw [List.append_nil]; rfl, by decide⟩
  | cons c cs =>
      obtain ⟨o₁, hput, hrest⟩ := Option.bind_eq_some_iff.1 h
      unfold Written.put at hput
      split at hput
      · next hroom =>
          cases hput
          rw [puts_eq hroom] at hrest
          split at hrest
          · next hfits =>
              cases hrest
              dsimp only at hfits
              rw [List.append_assoc, Nat.add_assoc, Nat.add_comm 1, List.length_cons]
              exact ⟨rfl, by omega⟩
          · cases hrest
      · cases hput

/-- Storing the same bytes keeps the two runs in agreement. -/
theorem FormatScan.Agrees.put {s : FormatScan} (h : s.Agrees o) (hputs : o.puts cs = some o') :
    (s.put cs).Agrees o' := by
  obtain ⟨rfl, -⟩ := puts_some hputs
  constructor
  · exact congrArg (· ++ cs) h.str
  · change s.written + BitVec.ofNat 32 cs.length = BitVec.ofNat 32 (o.written + cs.length)
    rw [h.written, BitVec.ofNat_add]

/-- The loop over `pad` stores one byte for each column that is missing, and none if none is: as
`int`s the difference has the right sign. -/
theorem padding_eq {width len : Nat} (hwidth : width < 2 ^ 31) (hlen : len < 2 ^ 31) (c : UInt8) :
    padding (BitVec.ofNat 32 width - BitVec.ofNat 32 len) c = List.replicate (width - len) c := by
  have hint : (BitVec.ofNat 32 width - BitVec.ofNat 32 len).toInt = (width : Int) - len := by
    rw [BitVec.toInt_eq_toNat_cond, BitVec.toNat_sub, BitVec.toNat_ofNat, BitVec.toNat_ofNat]
    omega
  unfold padding
  rw [hint]
  split
  · next hpos =>
      rw [BitVec.toInt_eq_toNat_cond] at hint
      congr 1
      omega
  · next hnot =>
      have hzero : width - len = 0 := by omega
      rw [hzero]
      rfl

/-- Without an overflow a field is what `%s` and `%d` write. -/
theorem str_fieldOf {f : Conv} {t : List UInt8} (hwidth : f.width < 2 ^ 31)
    (hlen : (convStr f t).length < 2 ^ 31) : (FormatScan.fieldOf f).str t = convStr f t := by
  rw [length_convStr] at hlen
  have hstr : strlen t < 2 ^ 31 := by omega
  have hpad := padding_eq hwidth hstr 32
  unfold Field.str convStr FormatScan.fieldOf
  dsimp only
  rw [hpad]

/-- `%d` in 32 bits writes what it does on numbers, if the width is an `int`. -/
theorem int_fieldOf {f : Conv} (hwidth : f.width < 2 ^ 31) (v : BitVec 32) :
    (FormatScan.fieldOf f).int v = convInt f v := by
  have hnum : (intBuf (if v.toInt < 0 then -v else v)).length < 2 ^ 31 :=
    Nat.lt_of_le_of_lt (length_intBuf_le_ten _) (by decide)
  have hpad := padding_eq hwidth hnum (if f.padZero then 48 else 32)
  unfold Field.int convInt FormatScan.fieldOf
  dsimp only
  rw [hpad]

/-- A width that was read without an overflow is an `int`. -/
theorem scanWidthInt_lt {width : Nat} {format : List UInt8} {r : Nat × List UInt8}
    (hwidth : width < 2 ^ 31) (h : scanWidthInt width format = some r) : r.1 < 2 ^ 31 := by
  induction format generalizing width with
  | nil =>
      cases h
      exact hwidth
  | cons c format ih =>
      rw [scanWidthInt] at h
      split at h
      · split at h
        · next hlt => exact ih hlt h
        · cases h
      · cases h
        exact hwidth

/-- The same of the width of a conversion. -/
theorem scanConvInt_width_lt {format : List UInt8} {r : Conv × List UInt8}
    (h : scanConvInt format = some r) : r.1.width < 2 ^ 31 := by
  unfold scanConvInt at h
  obtain ⟨⟨width, rest⟩, hwidth, rfl⟩ := Option.map_eq_some_iff.1 h
  exact scanWidthInt_lt (by decide) hwidth

/-- A conversion of a run that overflows nothing: what is stored, and what the branch does. -/
theorem xsprintfRun_conv {n : Nat} {w : List UInt8} {args : List Arg}
    (h : xsprintfRun (n + 1) (37 :: w) args o = some o') :
    ∃ f c rest bytes args₁ o₁, scanConvInt w = some (f, c :: rest) ∧
      o.puts bytes = some o₁ ∧ xsprintfRun n rest args₁ o₁ = some o' ∧
      ∀ s : FormatScan, s.args = args →
        s.convert c (FormatScan.fieldOf f) = .ok ({ s with args := args₁ }.put bytes) := by
  rw [xsprintfRun, if_pos rfl] at h
  split at h
  · cases h
  · cases h
  · next f c rest hscan =>
      have hwidth : f.width < 2 ^ 31 := scanConvInt_width_lt hscan
      split at h
      · next hs =>
          split at h
          · next t args₁ =>
              obtain ⟨o₁, hputs, hrun⟩ := Option.bind_eq_some_iff.1 h
              refine ⟨f, c, rest, convStr f t, args₁, o₁, hscan, hputs, hrun, fun s hargs => ?_⟩
              unfold FormatScan.convert
              rw [if_pos hs, hargs, ← str_fieldOf hwidth (puts_some hputs).2]
          · cases h
      · next hs =>
          split at h
          · next hd =>
              split at h
              · next v args₁ =>
                  split at h
                  · cases h
                  · obtain ⟨o₁, hputs, hrun⟩ := Option.bind_eq_some_iff.1 h
                    refine ⟨f, c, rest, convInt f v, args₁, o₁, hscan, hputs, hrun,
                      fun s hargs => ?_⟩
                    unfold FormatScan.convert
                    rw [if_neg hs, if_pos hd, hargs, ← int_fieldOf hwidth]
              · cases h
          · next hd =>
              split at h
              · next hc =>
                  split at h
                  · next v args₁ =>
                      obtain ⟨o₁, hputs, hrun⟩ := Option.bind_eq_some_iff.1 h
                      rw [put_eq_puts] at hputs
                      refine ⟨f, c, rest, _, args₁, o₁, hscan, hputs, hrun, fun s hargs => ?_⟩
                      unfold FormatScan.convert
                      rw [if_neg hs, if_neg hd, if_pos hc, hargs]
                  · cases h
              · next hc =>
                  obtain ⟨o₁, hputs, hrun⟩ := Option.bind_eq_some_iff.1 h
                  refine ⟨f, c, rest, _, args, o₁, hscan, hputs, hrun, fun s hargs => ?_⟩
                  unfold FormatScan.convert
                  rw [if_neg hs, if_neg hd, if_neg hc, ← hargs]

/-- The call in memory is where the run on lists is, with `w` left of the format. -/
structure Follows (mem : List UInt8) (last fuel n : Nat) (o' : Written) (s : FormatScan)
    (w : List UInt8) (o : Written) : Prop extends FormatScan.At mem last s w where
  rounds : w.length < fuel
  bound : w.length ≤ n
  run : xsprintfRun n w s.args o = some o'
  agrees : s.Agrees o

section
variable {mem w : List UInt8} {last fuel n : Nat} {s : FormatScan} {c : UInt8}

/-- A character that is no percent sign: both runs store it and go on, and the pointer has moved. -/
theorem Follows.char (h : Follows mem last fuel (n + 1) o' s (c :: w) o) (hc : c ≠ 37) :
    ∃ s' o₁, s.formatRound fuel mem = .ok (.again s') ∧ Follows mem last fuel n o' s' w o₁ ∧
      s.format < s'.format := by
  have hrun := h.run
  rw [xsprintfRun, if_neg hc] at hrun
  obtain ⟨o₁, hput, hrest⟩ := Option.bind_eq_some_iff.1 hrun
  rw [put_eq_puts] at hput
  have hagrees : ((s.read mem).2.put [c]).Agrees o₁ :=
    FormatScan.Agrees.put ⟨h.agrees.str, h.agrees.written⟩ hput
  exact ⟨_, o₁, h.toAt.formatRound_char hc fuel,
    ⟨h.toAt.after_char, Nat.lt_of_succ_lt h.rounds, Nat.le_of_succ_le_succ h.bound, hrest,
      ⟨hagrees.str, hagrees.written⟩⟩, Nat.lt_succ_self _⟩

/-- A conversion: both runs read the same flags and width, take the same argument and store the same
bytes, and the pointer has moved. -/
theorem Follows.conv (h : Follows mem last fuel (n + 1) o' s (37 :: w) o) :
    ∃ s' w' o₁, s.formatRound fuel mem = .ok (.again s') ∧ Follows mem last fuel n o' s' w' o₁ ∧
      s.format < s'.format := by
  obtain ⟨f, c, rest, bytes, args₁, o₁, hscan, hputs, hrun, hconvert⟩ := xsprintfRun_conv h.run
  obtain ⟨s₁, hat, hmoves, hround⟩ := h.toAt.formatRound_conv (Nat.lt_of_succ_lt h.rounds)
  have hbranch := hconvert s₁ hmoves.args
  rw [scanConv_of_int hscan] at hat hround
  rw [List.headD_cons, hbranch, ok_bind] at hround
  have hlen := h.toAt.length_le hat hmoves.format
  have hrounds := h.rounds
  have hbound := h.bound
  rw [List.length_cons] at hlen
  have hagrees : (FormatScan.put { s₁ with args := args₁ } bytes).Agrees o₁ :=
    FormatScan.Agrees.put ⟨hmoves.str.trans h.agrees.str, hmoves.written.trans h.agrees.written⟩
      hputs
  exact ⟨_, rest, o₁, hround, ⟨hat.after_conv hbranch, by omega, by omega, hrun,
    ⟨hagrees.str, hagrees.written⟩⟩, hmoves.lt_advance hbranch⟩

/-- A round of the call is one of the run, and the end of the string ends both. -/
theorem Follows.round (h : Follows mem last fuel n o' s w o) :
    (∃ s' n' w' o₁, s.formatRound fuel mem = .ok (.again s') ∧
        Follows mem last fuel n' o' s' w' o₁ ∧ s.format < s'.format) ∨
      ∃ s', s.formatRound fuel mem = .ok (.leave s') ∧
        s'.Agrees ⟨o'.str ++ [0], o'.written⟩ := by
  have hbound := h.bound
  cases w with
  | nil =>
      have hrun := h.run
      have heq : o = o' := by
        cases n with
        | zero => exact Option.some.inj hrun
        | succ n => exact Option.some.inj hrun
      subst heq
      exact .inr ⟨_, h.toAt.formatRound_nil fuel,
        ⟨congrArg (· ++ [0]) h.agrees.str, h.agrees.written⟩⟩
  | cons c w =>
      cases n with
      | zero => exact absurd hbound (Nat.not_succ_le_zero _)
      | succ n =>
          by_cases hc : c = 37
          · subst hc
            obtain ⟨s', w', o₁, hround, hfollows, hlt⟩ := h.conv
            exact .inl ⟨s', n, w', o₁, hround, hfollows, hlt⟩
          · obtain ⟨s', o₁, hround, hfollows, hlt⟩ := h.char hc
            exact .inl ⟨s', n, w, o₁, hround, hfollows, hlt⟩

end

end

/-! ## The whole call -/

section
variable {mem : List UInt8} {p : Nat} {args : List Arg}

/-- The start of a call. -/
theorem at_start (mem : List UInt8) (p : Nat) (args : List Arg) :
    FormatScan.At mem (p + strlen (mem.drop p)) ⟨p, args, [], 0, []⟩ (cstr (mem.drop p)) :=
  ⟨rfl, rfl⟩

/-- **The call that is seen.** Where no `int` overflows, the call in memory stores and returns what
`xsprintf` on lists does. -/
theorem xsprintfAt_refines {o : Written} {fuel : Nat}
    (h : xsprintfCall (mem.drop p) args = some o) (hfuel : strlen (mem.drop p) < fuel) :
    ∃ s, xsprintfAt fuel mem p args = .ok s ∧ s.Agrees o := by
  obtain ⟨o', hrun, rfl⟩ := Option.map_eq_some_iff.1 h
  have hrounds : p + strlen (mem.drop p) - p < fuel := by omega
  refine loop_spec
    (fun s => ∃ n w o, Follows mem (p + strlen (mem.drop p)) fuel n o' s w o)
    (fun s => p + strlen (mem.drop p) - s.format) _ ?_
    ⟨_, _, _, at_start mem p args, hfuel, Nat.le_refl _, hrun, ⟨rfl, rfl⟩⟩ hrounds
  rintro s ⟨n, w, o, hfollows⟩
  rcases hfollows.round with ⟨s', n', w', o₁, hround, hfollows', hlt⟩ | hleave
  · refine .inl ⟨s', hround, ⟨n', w', o₁, hfollows'⟩, ?_⟩
    have hnul := hfollows'.nul
    omega
  · exact .inr hleave

end

end OnkenOS
