import OnkenOS.Kernel.Format
import OnkenOS.Lib.Decimal

/-!
# `xsprintf` and `sprintf`

`xsprintf` with its counter `written` and the NUL at the end, and with the overflows of its `int`
variables. What it returns is the length of what it writes (`xsprintfCall_refines`). A format is
given by its pieces: characters and the conversions `%s`, `%d` and `%c`. On such a format `xsprintf`
writes what `sprintf` of C writes exactly if the width of every `%d` leaves nothing to decide
(`xsprintf_sprintf_iff`): the sign of a number is not counted in the width and stands before the
padding, and `-` does not justify a number.
-/

namespace OnkenOS

open Decimal

/-! ## A call -/

/-- What is stored at `str`, and the counter `written`. -/
structure Written where
  str : List UInt8
  written : Nat

/-- `*str++ = c; written++;`. Here and below `none` is an `int` that overflows. -/
def Written.put (o : Written) (c : UInt8) : Option Written :=
  if o.written + 1 < 2 ^ 31 then some ⟨o.str ++ [c], o.written + 1⟩ else none

/-- Some bytes, one after the other. -/
def Written.puts (o : Written) : List UInt8 → Option Written
  | [] => some o
  | c :: cs => (o.put c).bind fun o => o.puts cs

/-- `while (*format >= '0' && *format <= '9') width = width * 10 + (*format++ - '0');`. -/
def scanWidthInt (width : Nat) : List UInt8 → Option (Nat × List UInt8)
  | [] => some (width, [])
  | c :: format =>
      if 48 ≤ c ∧ c ≤ 57 then
        if width * 10 + (c.toNat - 48) < 2 ^ 31 then
          scanWidthInt (width * 10 + (c.toNat - 48)) format
        else none
      else some (width, c :: format)

/-- The flags and the width after a percent sign, and what follows them. -/
def scanConvInt (format : List UInt8) : Option (Conv × List UInt8) :=
  let (alignLeft, format) := scanFlag 45 format
  let (padZero, format) := scanFlag 48 format
  (scanWidthInt 0 format).map fun (width, format) => (⟨width, padZero, alignLeft⟩, format)

/-- The loop of `xsprintf`, at most `fuel` times. `-val` overflows for the least `int`. -/
def xsprintfRun : Nat → List UInt8 → List Arg → Written → Option Written
  | 0, _, _, o => some o
  | _ + 1, [], _, o => some o
  | fuel + 1, c :: format, args, o =>
      if c = 37 then
        match scanConvInt format with
        | none => none
        | some (_, []) => none
        | some (f, c :: format) =>
            if c = 115 then
              match args with
              | .str s :: args =>
                  (o.puts (convStr f s)).bind fun o => xsprintfRun fuel format args o
              | _ => none
            else if c = 100 then
              match args with
              | .int v :: args =>
                  if v = BitVec.intMin 32 then none
                  else (o.puts (convInt f v)).bind fun o => xsprintfRun fuel format args o
              | _ => none
            else if c = 99 then
              match args with
              | .int v :: args =>
                  (o.put v.toNat.toUInt8).bind fun o => xsprintfRun fuel format args o
              | _ => none
            else (o.puts [37, c]).bind fun o => xsprintfRun fuel format args o
      else (o.put c).bind fun o => xsprintfRun fuel format args o

/-- `xsprintf`: what it stores, with the NUL, and what it returns. -/
def xsprintfCall (format : List UInt8) (args : List Arg) : Option Written :=
  (xsprintfRun (cstr format).length (cstr format) args ⟨[], 0⟩).map fun o =>
    ⟨o.str ++ [0], o.written⟩

/-! ## The format of C -/

/-- A piece of a format, with its argument: a character that is neither a percent sign nor a NUL, or
a conversion. -/
inductive Piece where
  | lit (c : UInt8) (h : c ≠ 0 ∧ c ≠ 37)
  | str (f : Conv) (s : List UInt8)
  | int (f : Conv) (v : BitVec 32)
  | chr (v : BitVec 32)

/-- The flags and the width: no width is a width of zero. -/
def Conv.spell (f : Conv) : List UInt8 :=
  (if f.alignLeft then [45] else []) ++ (if f.padZero then [48] else []) ++
    if f.width = 0 then [] else decimal f.width

/-- How a piece is written in the format. -/
def Piece.spell : Piece → List UInt8
  | .lit c _ => [c]
  | .str f _ => 37 :: (f.spell ++ [115])
  | .int f _ => 37 :: (f.spell ++ [100])
  | .chr _ => [37, 99]

/-- The argument of a piece. -/
def Piece.args : Piece → List Arg
  | .lit _ _ => []
  | .str _ s => [.str s]
  | .int _ v => [.int v]
  | .chr v => [.int v]

/-- A field of at least `width` characters, with blanks. -/
def justify (left : Bool) (width : Nat) (s : List UInt8) : List UInt8 :=
  if left then s ++ List.replicate (width - s.length) 32
  else List.replicate (width - s.length) 32 ++ s

/-- The sign of a number. -/
def sign (v : BitVec 32) : List UInt8 := if v.toInt < 0 then [45] else []

/-- What `sprintf` of C writes for a piece. Zeros stand between the sign and the digits, and there
are none where `-` justifies to the left. -/
def Piece.sprintf : Piece → List UInt8
  | .lit c _ => [c]
  | .str f s => justify f.alignLeft f.width (cstr s)
  | .int f v =>
      let num := decimal v.toInt.natAbs
      if f.padZero ∧ ¬ f.alignLeft then
        sign v ++ List.replicate (f.width - (sign v ++ num).length) 48 ++ num
      else justify f.alignLeft f.width (sign v ++ num)
  | .chr v => [v.toNat.toUInt8]

/-- The format, its arguments and what `sprintf` of C writes. -/
def spellAll (ps : List Piece) : List UInt8 := ps.flatMap Piece.spell

def argsAll (ps : List Piece) : List Arg := ps.flatMap Piece.args

def sprintfAll (ps : List Piece) : List UInt8 := ps.flatMap Piece.sprintf

/-- `xsprintf` writes what `sprintf` writes, and a NUL, and returns its length. -/
def AgreesWithC (ps : List Piece) : Prop :=
  xsprintfCall (spellAll ps) (argsAll ps) = some ⟨sprintfAll ps ++ [0], (sprintfAll ps).length⟩

/-- A number for which neither the sign nor the flag `-` has a say in the padding. -/
def Piece.Plain : Piece → Prop
  | .int f v =>
      if v.toInt < 0 then v ≠ BitVec.intMin 32 ∧ f.width ≤ (decimal v.toInt.natAbs).length
      else f.alignLeft → f.width ≤ (decimal v.toInt.natAbs).length
  | _ => True

/-! ## What is stored -/

section
variable {o o' : Written} {cs ds : List UInt8}

/-- One character is a text of length one, so what is shown of texts holds of the loop that stores
single characters. -/
theorem put_eq_puts (o : Written) (c : UInt8) : o.put c = o.puts [c] := by
  simp [Written.puts]

/-- Storing a text in two parts overflows the counter exactly where storing it at once does. -/
theorem puts_append (o : Written) (cs ds : List UInt8) :
    o.puts (cs ++ ds) = (o.puts cs).bind fun o => o.puts ds := by
  induction cs generalizing o with
  | nil => rfl
  | cons c cs ih => simp only [List.cons_append, Written.puts, ih, Option.bind_assoc]

/-- The counter counts the bytes, up to the largest `int`: behind that the call has no defined
result. -/
theorem puts_eq (ho : o.written < 2 ^ 31) (cs : List UInt8) :
    o.puts cs = if o.written + cs.length < 2 ^ 31 then
      some ⟨o.str ++ cs, o.written + cs.length⟩ else none := by
  induction cs generalizing o with
  | nil => rw [Written.puts, List.length_nil, Nat.add_zero, if_pos ho, List.append_nil]
  | cons c cs ih =>
      unfold Written.puts Written.put
      split
      · next hroom =>
          rw [Option.bind_some, ih hroom, List.append_assoc, List.length_cons]
          dsimp only
          rw [Nat.add_assoc, Nat.add_comm 1]
          rfl
      · rw [if_neg (by rw [List.length_cons]; omega)]
        rfl

/-- A whole call: the bytes are stored from the start. -/
theorem puts_start (cs : List UInt8) : (⟨[], 0⟩ : Written).puts cs =
    if cs.length < 2 ^ 31 then some ⟨cs, cs.length⟩ else none := by
  rw [puts_eq (by decide)]
  simp

end

/-! ## The call writes what the loop says -/

/-- Where the width is an `int`, reading it in 32 bits gives the same number. -/
theorem scanWidth_of_int {width : Nat} {format : List UInt8} {r : Nat × List UInt8}
    (h : scanWidthInt width format = some r) : scanWidth width format = r := by
  induction format generalizing width with
  | nil => exact Option.some.inj h
  | cons c format ih =>
      rw [scanWidthInt] at h
      rw [scanWidth]
      split at h
      · next hdigit =>
          rw [if_pos hdigit]
          split at h
          · exact ih h
          · cases h
      · next hdigit =>
          rw [if_neg hdigit]
          exact Option.some.inj h

/-- The same of a conversion: without an overflow the flags, the width and the rest of the format
agree. -/
theorem scanConv_of_int {format : List UInt8} {r : Conv × List UInt8}
    (h : scanConvInt format = some r) : scanConv format = r := by
  rcases hleft : scanFlag 45 format with ⟨alignLeft, format₁⟩
  rcases hzero : scanFlag 48 format₁ with ⟨padZero, format₂⟩
  simp only [scanConvInt, hleft, hzero] at h
  obtain ⟨⟨width, rest⟩, hwidth, rfl⟩ := Option.map_eq_some_iff.1 h
  simp only [scanConv, hleft, hzero, scanWidth_of_int hwidth]

/-- A piece is stored, and then the rest: the step of the induction, for what the piece writes. -/
theorem xsprintfRun_append {fuel : Nat} {rest piece : List UInt8} {args : List Arg} {o o' : Written}
    (ih : ∀ o₁, xsprintfRun fuel rest args o₁ = some o' →
      ∃ out, xsprintfLoop fuel rest args = some out ∧ o₁.puts out = some o')
    (h : ((o.puts piece).bind fun o => xsprintfRun fuel rest args o) = some o') :
    ∃ out, (xsprintfLoop fuel rest args).map (piece ++ ·) = some out ∧ o.puts out = some o' := by
  obtain ⟨o₁, hpiece, hrest⟩ := Option.bind_eq_some_iff.1 h
  obtain ⟨out, hout, hputs⟩ := ih o₁ hrest
  exact ⟨piece ++ out, by rw [hout]; rfl, by rw [puts_append, hpiece]; exact hputs⟩

/-- A run that overflows nothing stores what the loop writes, so the messages of the terminal may be
computed without the counter. -/
theorem xsprintfRun_refines {fuel : Nat} {format : List UInt8} {args : List Arg} {o o' : Written}
    (h : xsprintfRun fuel format args o = some o') :
    ∃ out, xsprintfLoop fuel format args = some out ∧ o.puts out = some o' := by
  fun_induction xsprintfRun fuel format args o with
  | case1 => exact ⟨[], rfl, h⟩
  | case2 => exact ⟨[], rfl, h⟩
  | case3 | case4 | case6 | case7 | case9 | case11 => cases h
  | case5 _ _ _ f _ s _ hscan ih =>
      rw [xsprintfLoop, if_pos rfl, scanConv_of_int hscan]
      exact xsprintfRun_append ih h
  | case8 _ _ _ f _ v _ _ hscan hs ih =>
      rw [xsprintfLoop, if_pos rfl, scanConv_of_int hscan]
      exact xsprintfRun_append ih h
  | case10 _ _ _ f _ v _ hscan hs hd ih =>
      rw [put_eq_puts] at h
      rw [xsprintfLoop, if_pos rfl, scanConv_of_int hscan]
      exact xsprintfRun_append ih h
  | case12 _ _ _ _ f c _ hscan hs hd hc ih =>
      rw [xsprintfLoop, if_pos rfl, scanConv_of_int hscan]
      simp only [if_neg hs, if_neg hd, if_neg hc]
      exact xsprintfRun_append ih h
  | case13 _ c _ _ _ hc ih =>
      rw [put_eq_puts] at h
      rw [xsprintfLoop, if_neg hc]
      exact xsprintfRun_append ih h

/-- **What `xsprintf` stores and returns.** The bytes, a NUL, and their number. -/
theorem xsprintfCall_refines {format : List UInt8} {args : List Arg} {o : Written}
    (h : xsprintfCall format args = some o) :
    ∃ out, xsprintf format args = some out ∧ o = ⟨out ++ [0], out.length⟩ := by
  obtain ⟨o', hrun, rfl⟩ := Option.map_eq_some_iff.1 h
  obtain ⟨out, hout, hputs⟩ := xsprintfRun_refines hrun
  refine ⟨out, hout, ?_⟩
  rw [puts_start] at hputs
  split at hputs
  · cases hputs
    rfl
  · cases hputs

/-! ## Reading a conversion -/

/-- One round of the loop over a width: the digit is added unless the sum is no `int`. -/
theorem scanWidthInt_digit (width n : Nat) (format : List UInt8) :
    scanWidthInt width (digit n :: format) =
      if width * 10 + n % 10 < 2 ^ 31 then scanWidthInt (width * 10 + n % 10) format else none := by
  have hdigit : 48 ≤ digit n ∧ digit n ≤ 57 := digit_bounds n
  have hval : (digit n).toNat - 48 = n % 10 := by
    rw [toNat_digit]
    exact Nat.add_sub_cancel _ _
  rw [scanWidthInt, if_pos hdigit, hval]

/-- A width that was spelled in decimal is read back, digit by digit. -/
theorem scanWidthInt_decimal (n : Nat) (format : List UInt8) :
    scanWidthInt 0 (decimal n ++ format) =
      if n < 2 ^ 31 then scanWidthInt n format else none := by
  induction n using Nat.strongRecOn generalizing format with
  | _ n ih =>
      rcases Nat.lt_or_ge n 10 with hlt | hge
      · rw [decimal_of_lt_ten hlt, List.singleton_append, scanWidthInt_digit, Nat.zero_mul,
          Nat.zero_add, Nat.mod_eq_of_lt hlt]
      · have hval : n / 10 * 10 + n % 10 = n := by omega
        rw [decimal_of_ten_le hge, List.append_assoc, List.singleton_append, ih _ (by omega),
          scanWidthInt_digit, hval]
        split
        · rfl
        · rw [if_neg (by omega)]

/-- A character that is not the flag is left in the format. -/
theorem scanFlag_of_ne {c d : UInt8} (hd : d ≠ c) (format : List UInt8) :
    scanFlag c (d :: format) = (false, d :: format) := if_neg hd

/-- The flag is taken out of the format. -/
theorem scanFlag_self (c : UInt8) (format : List UInt8) :
    scanFlag c (c :: format) = (true, format) := if_pos rfl

section
variable {f : Conv} {c : UInt8}

/-- The width in the format, in front of a character that is neither a flag nor a digit. -/
theorem scanWidthInt_spell (width : Nat) (hc : ¬ (48 ≤ c ∧ c ≤ 57)) (rest : List UInt8) :
    scanWidthInt 0 ((if width = 0 then [] else decimal width) ++ c :: rest) =
      if width < 2 ^ 31 then some (width, c :: rest) else none := by
  have hend : ∀ n, scanWidthInt n (c :: rest) = some (n, c :: rest) := fun _ => if_neg hc
  split
  · next hzero =>
      rw [List.nil_append, hend, hzero]
      rfl
  · rw [scanWidthInt_decimal, hend]

/-- What follows the flags does not look like one: a width begins with a digit that is not zero, and
a conversion with none of them. -/
theorem width_spell_cons (width : Nat) (hc : c ≠ 45 ∧ ¬ (48 ≤ c ∧ c ≤ 57)) (rest : List UInt8) :
    ∃ d t, (if width = 0 then [] else decimal width) ++ c :: rest = d :: t ∧ d ≠ 45 ∧ d ≠ 48 := by
  split
  · refine ⟨c, rest, rfl, hc.1, ?_⟩
    rintro rfl
    exact hc.2 (by decide)
  · next hpos =>
      obtain ⟨d, t, hd, hlow, -⟩ := decimal_pos (Nat.pos_of_ne_zero hpos)
      refine ⟨d, t ++ c :: rest, by rw [hd, List.cons_append], ?_, ?_⟩
      · rintro rfl
        exact absurd hlow (by decide)
      · rintro rfl
        exact absurd hlow (by decide)

/-- The flags and the width of a conversion are read back, if the width is an `int`. -/
theorem scanConvInt_spell (f : Conv) (hc : c ≠ 45 ∧ ¬ (48 ≤ c ∧ c ≤ 57)) (rest : List UInt8) :
    scanConvInt (f.spell ++ c :: rest) =
      if f.width < 2 ^ 31 then some (f, c :: rest) else none := by
  obtain ⟨width, padZero, alignLeft⟩ := f
  obtain ⟨d, t, htail, hd45, hd48⟩ := width_spell_cons width hc rest
  have hscan := scanWidthInt_spell width hc.2 rest
  unfold Conv.spell
  dsimp only
  rw [List.append_assoc]
  rw [htail] at hscan ⊢
  have hzero : scanFlag 48 ((if padZero then [48] else []) ++ d :: t) = (padZero, d :: t) := by
    cases padZero with
    | false => exact scanFlag_of_ne hd48 t
    | true => exact scanFlag_self 48 _
  have hleft : scanFlag 45 ((if alignLeft then [45] else []) ++
      ((if padZero then [48] else []) ++ d :: t)) =
      (alignLeft, (if padZero then [48] else []) ++ d :: t) := by
    cases alignLeft with
    | true => exact scanFlag_self 45 _
    | false =>
        cases padZero with
        | false => exact scanFlag_of_ne hd45 t
        | true => exact scanFlag_of_ne (by decide) _
  unfold scanConvInt
  rw [List.append_assoc, hleft]
  dsimp only
  rw [hzero]
  dsimp only
  rw [hscan]
  split
  · rfl
  · rfl

end

/-! ## A format of pieces -/

/-- What `xsprintf` writes for a piece. -/
def Piece.written : Piece → List UInt8
  | .lit c _ => [c]
  | .str f s => convStr f s
  | .int f v => convInt f v
  | .chr v => [v.toNat.toUInt8]

/-- The width and the number negated are `int`s. -/
def Piece.fits : Piece → Bool
  | .str f _ => f.width < 2 ^ 31
  | .int f v => f.width < 2 ^ 31 ∧ v ≠ BitVec.intMin 32
  | _ => true

/-- For a string only the width can be too large. -/
theorem fits_str_iff (f : Conv) (s : List UInt8) :
    (Piece.str f s).fits = true ↔ f.width < 2 ^ 31 := decide_eq_true_iff

/-- For a number the width can be too large, and the least `int` has no negation. -/
theorem fits_int_iff (f : Conv) (v : BitVec 32) :
    (Piece.int f v).fits = true ↔ f.width < 2 ^ 31 ∧ v ≠ BitVec.intMin 32 := decide_eq_true_iff

def writtenAll (ps : List Piece) : List UInt8 := ps.flatMap Piece.written

/-- One piece is one round of the loop: a character is copied, or a conversion takes its argument.
-/
theorem xsprintfRun_piece (p : Piece) (fuel : Nat) (rest : List UInt8) (args : List Arg)
    (o : Written) :
    xsprintfRun (fuel + 1) (p.spell ++ rest) (p.args ++ args) o =
      if p.fits then (o.puts p.written).bind fun o => xsprintfRun fuel rest args o else none := by
  cases p with
  | lit c h =>
      change xsprintfRun (fuel + 1) (c :: rest) args o = _
      rw [xsprintfRun, if_neg h.2, put_eq_puts]
      rfl
  | chr v =>
      change xsprintfRun (fuel + 1) (37 :: 99 :: rest) (.int v :: args) o = _
      have hscan : scanConvInt (99 :: rest) = some (⟨0, false, false⟩, 99 :: rest) :=
        scanConvInt_spell ⟨0, false, false⟩ (by decide) rest
      rw [xsprintfRun, if_pos rfl, hscan]
      exact congrArg (fun r => Option.bind r _) (put_eq_puts o _)
  | str f s =>
      have hscan := scanConvInt_spell f (c := 115) (by decide) rest
      have hspell : (Piece.str f s).spell ++ rest = 37 :: (f.spell ++ 115 :: rest) := by
        simp [Piece.spell]
      have hargs : (Piece.str f s).args ++ args = .str s :: args := rfl
      rw [hspell, hargs, xsprintfRun, if_pos rfl, hscan]
      by_cases hwidth : f.width < 2 ^ 31
      · rw [if_pos hwidth, if_pos ((fits_str_iff f s).2 hwidth)]
        rfl
      · rw [if_neg hwidth, if_neg fun h => hwidth ((fits_str_iff f s).1 h)]
  | int f v =>
      have hscan := scanConvInt_spell f (c := 100) (by decide) rest
      have hspell : (Piece.int f v).spell ++ rest = 37 :: (f.spell ++ 100 :: rest) := by
        simp [Piece.spell]
      have hargs : (Piece.int f v).args ++ args = .int v :: args := rfl
      rw [hspell, hargs, xsprintfRun, if_pos rfl, hscan]
      by_cases hwidth : f.width < 2 ^ 31
      · rw [if_pos hwidth]
        by_cases hv : v = BitVec.intMin 32
        · rw [if_neg fun h => ((fits_int_iff f v).1 h).2 hv]
          exact if_pos hv
        · rw [if_pos ((fits_int_iff f v).2 ⟨hwidth, hv⟩)]
          exact if_neg hv
      · rw [if_neg hwidth, if_neg fun h => hwidth ((fits_int_iff f v).1 h).1]

/-- All pieces, by induction: the rounds write their texts one behind the other, and overflow if the
sum of the lengths is no `int`. -/
theorem xsprintfRun_pieces (ps : List Piece) {fuel : Nat} (hfuel : ps.length ≤ fuel)
    (o : Written) :
    xsprintfRun fuel (spellAll ps) (argsAll ps) o =
      if ps.all Piece.fits then o.puts (writtenAll ps) else none := by
  induction ps generalizing fuel o with
  | nil =>
      cases fuel with
      | zero => rfl
      | succ fuel => rfl
  | cons p ps ih =>
      cases fuel with
      | zero => cases hfuel
      | succ fuel =>
          have hrest := fun o => ih (Nat.le_of_succ_le_succ hfuel) o
          unfold spellAll argsAll writtenAll at hrest ⊢
          rw [List.flatMap_cons, List.flatMap_cons, xsprintfRun_piece, List.flatMap_cons,
            puts_append, List.all_cons]
          simp only [hrest]
          cases p.fits with
          | false => rfl
          | true =>
              cases ps.all Piece.fits with
              | true => rfl
              | false =>
                  cases o.puts p.written with
                  | none => rfl
                  | some o => rfl

/-- Flags and widths are written in printable characters, so a spelled conversion does not end the
format. -/
theorem zero_not_mem_conv (f : Conv) : 0 ∉ f.spell := by
  intro hmem
  unfold Conv.spell at hmem
  rcases List.mem_append.1 hmem with hflags | hwidth
  · cases f.alignLeft <;> cases f.padZero <;> simp_all
  · split at hwidth
    · cases hwidth
    · exact absurd (mem_decimal hwidth).1 (by decide)

/-- No piece ends the format: a plain character is not a NUL, and a conversion is spelled without
one. -/
theorem zero_not_mem_spell (p : Piece) : 0 ∉ p.spell := by
  cases p with
  | lit c h => exact fun hmem => h.1 (List.mem_singleton.1 hmem).symm
  | chr v => exact (by decide : (0 : UInt8) ∉ [37, 99])
  | str f s =>
      have hf := zero_not_mem_conv f
      simp [Piece.spell, hf]
  | int f v =>
      have hf := zero_not_mem_conv f
      simp [Piece.spell, hf]

/-- Every piece takes at least one character of the format, so the loop makes a round for each. -/
theorem length_spell_pos (p : Piece) : 1 ≤ p.spell.length := by
  cases p with
  | lit | chr => exact Nat.le_of_ble_eq_true rfl
  | str | int => exact Nat.le_add_left 1 _

/-- There are no more pieces than characters, so the length of the format is fuel enough. -/
theorem length_le_spellAll (ps : List Piece) : ps.length ≤ (spellAll ps).length := by
  induction ps with
  | nil => exact Nat.le_refl 0
  | cons p ps ih =>
      have hp := length_spell_pos p
      unfold spellAll at ih ⊢
      rw [List.flatMap_cons, List.length_append, List.length_cons]
      omega

/-- A call with a format of pieces, each read back as it was spelled, and the NUL at the end. -/
theorem xsprintfCall_pieces (ps : List Piece) :
    xsprintfCall (spellAll ps) (argsAll ps) =
      if ps.all Piece.fits ∧ (writtenAll ps).length < 2 ^ 31 then
        some ⟨writtenAll ps ++ [0], (writtenAll ps).length⟩
      else none := by
  have hzero : 0 ∉ spellAll ps := by
    intro hmem
    obtain ⟨p, -, hp⟩ := List.mem_flatMap.1 hmem
    exact zero_not_mem_spell p hp
  rw [xsprintfCall, cstr_of_zero_not_mem hzero, xsprintfRun_pieces ps (length_le_spellAll ps),
    puts_start]
  by_cases hfits : ps.all Piece.fits = true
  · by_cases hlen : (writtenAll ps).length < 2 ^ 31
    · rw [if_pos hfits, if_pos hlen, if_pos ⟨hfits, hlen⟩]
      rfl
    · rw [if_pos hfits, if_neg hlen, if_neg fun h => hlen h.2]
      rfl
  · rw [if_neg hfits, if_neg fun h => hfits h.1]
    rfl

/-! ## Numbers -/

/-- The digits that `%d` takes off from the right are, turned round, the decimal number, if there
are rounds enough. -/
theorem numBuf_reverse {fuel val : Nat} (hval : 0 < val) (hfuel : val < 10 ^ fuel) :
    (numBuf fuel val).reverse = decimal val := by
  induction fuel generalizing val with
  | zero => omega
  | succ fuel ih =>
      rw [numBuf, if_pos hval, List.reverse_cons]
      change _ ++ [digit val] = _
      rcases Nat.lt_or_ge val 10 with hlt | hge
      · have hzero : val / 10 = 0 := Nat.div_eq_of_lt hlt
        have hnil : numBuf fuel 0 = [] := by
          cases fuel <;> rfl
        rw [hzero, hnil, decimal_of_lt_ten hlt]
        rfl
      · have hdiv : val / 10 < 10 ^ fuel := by
          rw [Nat.pow_succ] at hfuel
          omega
        rw [ih (by omega) hdiv, ← decimal_of_ten_le hge]

/-- For a number that is not negative the ten rounds are enough. -/
theorem intBuf_reverse {v : BitVec 32} (hv : 0 ≤ v.toInt) :
    (intBuf v).reverse = decimal v.toInt.toNat := by
  unfold intBuf
  split
  · next hzero =>
      rw [hzero]
      rfl
  · next hzero =>
      have hne : v.toInt ≠ 0 := fun h => hzero (BitVec.eq_of_toInt_eq (by simpa using h))
      have hlt : v.toInt < 2 ^ 31 := BitVec.toInt_lt
      exact numBuf_reverse (by omega) (by omega)

/-- What `%d` writes: the sign, the padding up to the width without it, and the digits. -/
theorem convInt_eq (f : Conv) {v : BitVec 32} (hv : v ≠ BitVec.intMin 32) :
    convInt f v = sign v ++
      List.replicate (f.width - (decimal v.toInt.natAbs).length) (if f.padZero then 48 else 32) ++
      decimal v.toInt.natAbs := by
  have hnum : (intBuf (if v.toInt < 0 then -v else v)).reverse = decimal v.toInt.natAbs := by
    split
    · next hneg =>
        have htoInt := BitVec.toInt_neg_of_ne_intMin hv
        rw [intBuf_reverse (by omega), htoInt]
        exact congrArg decimal (by omega)
    · next hneg =>
        rw [intBuf_reverse (by omega)]
        exact congrArg decimal (by omega)
  have hlen := congrArg List.length hnum
  rw [List.length_reverse] at hlen
  unfold convInt
  dsimp only
  rw [hnum, hlen]
  rfl

/-! ## Texts that part -/

/-- The texts have a first character in which they differ. -/
def Parts (s t : List UInt8) : Prop :=
  ∃ common a b s' t', s = common ++ a :: s' ∧ t = common ++ b :: t' ∧ a ≠ b

/-- Texts that differ at a place stay different, whatever is written behind it. -/
theorem Parts.append_ne {s t : List UInt8} (h : Parts s t) (s' t' : List UInt8) :
    s ++ s' ≠ t ++ t' := by
  obtain ⟨common, a, b, s₁, t₁, rfl, rfl, hne⟩ := h
  intro heq
  rw [List.append_assoc, List.append_assoc, List.append_cancel_left_eq, List.cons_append,
    List.cons_append] at heq
  exact hne (List.cons.inj heq).1

/-- They also stay different behind the same beginning. -/
theorem Parts.append_left {s t : List UInt8} (h : Parts s t) (front : List UInt8) :
    Parts (front ++ s) (front ++ t) := by
  obtain ⟨common, a, b, s₁, t₁, rfl, rfl, hne⟩ := h
  exact ⟨front ++ common, a, b, s₁, t₁, by rw [List.append_assoc], by rw [List.append_assoc], hne⟩

/-- The same with one character before them. -/
theorem Parts.cons {s t : List UInt8} (h : Parts s t) (c : UInt8) : Parts (c :: s) (c :: t) :=
  h.append_left [c]

section
variable {z : UInt8} {n : Nat}

/-- Padding in front of a positive number, and the number. -/
theorem parts_pad (hz : z = 48 ∨ z = 32) (hn : 0 < n) (m : Nat) (s t : List UInt8) :
    Parts (List.replicate (m + 1) z ++ s) (decimal n ++ t) := by
  obtain ⟨c, rest, hc, hlow, -⟩ := decimal_pos hn
  refine ⟨[], z, c, List.replicate m z ++ s, rest ++ t, ?_, ?_, ?_⟩
  · rw [List.replicate_succ, List.cons_append, List.nil_append]
  · rw [hc, List.cons_append, List.nil_append]
  · rintro rfl
    rcases hz with rfl | rfl <;> exact absurd hlow (by decide)

/-- A number that is to be justified to the left. -/
theorem parts_left (hz : z = 48 ∨ z = 32) (n m : Nat) :
    Parts (List.replicate (m + 1) z ++ decimal n) (decimal n ++ List.replicate (m + 1) 32) := by
  rcases Nat.eq_zero_or_pos n with rfl | hn
  · rw [decimal_zero]
    rcases hz with rfl | rfl
    · -- the zero stands where it should, and is followed by one more
      refine Parts.cons (s := List.replicate m 48 ++ [48]) ?_ 48
      exact ⟨[], 48, 32, List.replicate m 48, List.replicate m 32, List.replicate_succ'.symm, rfl,
        by decide⟩
    · exact ⟨[], 32, 48, _, _, rfl, rfl, by decide⟩
  · exact parts_pad hz hn m _ _

end

section
variable (f : Conv) {v : BitVec 32}

/-- What `xsprintf` pads with is a zero or a blank. -/
theorem pad_eq (f : Conv) :
    (if f.padZero then 48 else 32 : UInt8) = 48 ∨ (if f.padZero then 48 else 32 : UInt8) = 32 := by
  cases f.padZero with
  | true => exact .inl rfl
  | false => exact .inr rfl

/-- A number without a sign that is not justified to the left. -/
theorem parts_of_nonneg (hv : v ≠ BitVec.intMin 32) (hsign : ¬ v.toInt < 0)
    (hleft : f.alignLeft = true) (hwidth : (decimal v.toInt.natAbs).length < f.width) :
    Parts (convInt f v) (Piece.int f v).sprintf := by
  obtain ⟨m, hm⟩ : ∃ m, f.width - (decimal v.toInt.natAbs).length = m + 1 :=
    ⟨_, (Nat.succ_pred_eq_of_pos (Nat.sub_pos_of_lt hwidth)).symm⟩
  have hnone : sign v = [] := if_neg hsign
  have htext : (Piece.int f v).sprintf =
      decimal v.toInt.natAbs ++ List.replicate (m + 1) 32 := by
    rw [Piece.sprintf, if_neg fun h => h.2 hleft, hnone, List.nil_append, hleft, justify,
      if_pos rfl, hm]
  rw [convInt_eq f hv, htext, hnone, List.nil_append, hm]
  exact parts_left (pad_eq f) v.toInt.natAbs m

/-- A sign that is not counted in the width: the padding is one character longer than that of
`sprintf`, so the two texts part. -/
theorem parts_of_neg (hv : v ≠ BitVec.intMin 32) (hsign : v.toInt < 0)
    (hwidth : (decimal v.toInt.natAbs).length < f.width) :
    Parts (convInt f v) (Piece.int f v).sprintf := by
  have hn : 0 < v.toInt.natAbs := by omega
  obtain ⟨m, hm⟩ : ∃ m, f.width - (decimal v.toInt.natAbs).length = m + 1 :=
    ⟨_, (Nat.succ_pred_eq_of_pos (Nat.sub_pos_of_lt hwidth)).symm⟩
  have hminus : sign v = [45] := if_pos hsign
  have hm' : f.width - ([45] ++ decimal v.toInt.natAbs).length = m := by
    rw [List.length_append, List.length_singleton]
    omega
  have hpad := pad_eq f
  rw [convInt_eq f hv, hminus, hm, Piece.sprintf, hminus, hm', justify, hm']
  by_cases hzero : f.padZero ∧ ¬ f.alignLeft
  · -- `sprintf` writes one zero less
    rw [if_pos hzero, if_pos hzero.1, List.replicate_succ', List.append_assoc, List.append_assoc,
      List.append_assoc]
    refine Parts.append_left ?_ [45]
    have hlast := parts_pad (.inl rfl) hn 0 (decimal v.toInt.natAbs) []
    rw [List.append_nil] at hlast
    exact hlast.append_left (List.replicate m 48)
  · rw [if_neg hzero]
    cases hleft : f.alignLeft with
    | true =>
        rw [if_pos rfl]
        exact (parts_pad hpad hn m _ _).cons 45
    | false =>
        have hblank : f.padZero = false := by
          cases hz : f.padZero with
          | false => rfl
          | true => exact absurd ⟨hz, by rw [hleft]; decide⟩ hzero
        rw [hblank]
        -- the blanks stand in front of the sign, if there are any
        cases m with
        | zero =>
            have hnext := parts_pad (.inr rfl) hn 0 (decimal v.toInt.natAbs) []
            rw [List.append_nil] at hnext
            exact hnext.cons 45
        | succ m => exact ⟨[], 45, 32, _, _, rfl, rfl, by decide⟩

end

/-- A number that is not plain is written another way. -/
theorem parts_of_not_plain (f : Conv) {v : BitVec 32} (hv : v ≠ BitVec.intMin 32)
    (h : ¬ (Piece.int f v).Plain) : Parts (convInt f v) (Piece.int f v).sprintf := by
  unfold Piece.Plain at h
  dsimp only at h
  split at h
  · next hsign =>
      rw [not_and] at h
      exact parts_of_neg f hv hsign (Nat.lt_of_not_le (h hv))
  · next hsign =>
      rw [Classical.not_imp] at h
      exact parts_of_nonneg f hv hsign h.1 (by omega)

/-! ## What agrees -/

/-- A plain piece is written as `sprintf` writes it, padded on the side that the flag chooses. -/
theorem written_eq_sprintf {p : Piece} (hfits : p.fits = true) (h : p.Plain) :
    p.written = p.sprintf := by
  cases p with
  | lit | str | chr => rfl
  | int f v =>
      obtain ⟨-, hv⟩ := (fits_int_iff f v).1 hfits
      unfold Piece.Plain at h
      dsimp only at h
      rw [Piece.written, convInt_eq f hv, Piece.sprintf, justify]
      split at h
      · -- neither has any padding
        have hpad : f.width - (decimal v.toInt.natAbs).length = 0 := Nat.sub_eq_zero_of_le h.2
        have hpad' : f.width - (sign v ++ decimal v.toInt.natAbs).length = 0 := by
          rw [List.length_append]
          omega
        simp only [hpad, hpad', List.replicate_zero, List.append_nil, List.nil_append, ite_self]
      · next hsign =>
          have hnone : sign v = [] := if_neg hsign
          rw [hnone, List.nil_append, List.nil_append]
          cases hleft : f.alignLeft with
          | true =>
              have hpad : f.width - (decimal v.toInt.natAbs).length = 0 :=
                Nat.sub_eq_zero_of_le (h hleft)
              simp only [hpad, List.replicate_zero, List.append_nil, List.nil_append,
                not_true_eq_false, and_false, if_false, if_true]
          | false =>
              cases hzero : f.padZero with
              | true => simp
              | false => simp

/-- If all is written as `sprintf` writes it, the first piece that is not plain cannot be. -/
theorem plain_of_writtenAll_eq {ps : List Piece} (hfits : ps.all Piece.fits = true)
    (h : writtenAll ps = sprintfAll ps) : ∀ p ∈ ps, p.Plain := by
  induction ps with
  | nil => exact nofun
  | cons p ps ih =>
      rw [List.all_cons, Bool.and_eq_true] at hfits
      unfold writtenAll sprintfAll at h ih
      rw [List.flatMap_cons, List.flatMap_cons] at h
      by_cases hplain : p.Plain
      · rw [written_eq_sprintf hfits.1 hplain, List.append_cancel_left_eq] at h
        exact List.forall_mem_cons.2 ⟨hplain, ih hfits.2 h⟩
      · cases p with
        | lit | str | chr => exact absurd trivial hplain
        | int f v =>
            have hv := ((fits_int_iff f v).1 hfits.1).2
            exact absurd h ((parts_of_not_plain f hv hplain).append_ne _ _)

/-- A justified field has at least its width. -/
theorem length_justify (left : Bool) (width : Nat) (s : List UInt8) :
    width ≤ (justify left width s).length := by
  unfold justify
  split
  · rw [List.length_append, List.length_replicate]
    omega
  · rw [List.length_append, List.length_replicate]
    omega

/-- A plain piece that `sprintf` writes in an `int` of bytes overflows nothing. -/
theorem fits_of_plain {p : Piece} (h : p.Plain) (hlen : p.sprintf.length < 2 ^ 31) :
    p.fits = true := by
  cases p with
  | lit | chr => rfl
  | str f s =>
      exact (fits_str_iff f s).2 (Nat.lt_of_le_of_lt (length_justify _ _ _) hlen)
  | int f v =>
      have hwidth : f.width ≤ (Piece.int f v).sprintf.length := by
        rw [Piece.sprintf]
        split
        · simp only [List.length_append, List.length_replicate]
          omega
        · exact length_justify _ _ _
      refine (fits_int_iff f v).2 ⟨Nat.lt_of_le_of_lt hwidth hlen, ?_⟩
      unfold Piece.Plain at h
      dsimp only at h
      split at h
      · exact h.1
      · next hsign =>
          rintro rfl
          exact hsign (by decide)

/-- What one piece writes is no longer than what the whole format writes, so its length is an `int`
if that is. -/
theorem length_sprintf_le {ps : List Piece} {p : Piece} (hp : p ∈ ps) :
    p.sprintf.length ≤ (sprintfAll ps).length := by
  obtain ⟨front, back, rfl⟩ := List.append_of_mem hp
  unfold sprintfAll
  rw [List.flatMap_append, List.flatMap_cons, List.length_append, List.length_append]
  omega

/-- **Where `xsprintf` agrees with `sprintf`.** For every format of characters and conversions `%s`,
`%d` and `%c`, with any flags and widths, and all arguments: exactly if the text is no longer than
an `int` can count and every number is plain. A negative number in a wider field is not, as the sign
is not counted in the width. -/
theorem xsprintf_sprintf_iff (ps : List Piece) :
    AgreesWithC ps ↔ (sprintfAll ps).length < 2 ^ 31 ∧ ∀ p ∈ ps, p.Plain := by
  unfold AgreesWithC
  rw [xsprintfCall_pieces]
  constructor
  · intro h
    split at h
    · next hcond =>
        have htext : writtenAll ps = sprintfAll ps :=
          List.append_cancel_right (congrArg Written.str (Option.some.inj h))
        rw [htext] at hcond
        exact ⟨hcond.2, plain_of_writtenAll_eq hcond.1 htext⟩
    · cases h
  · rintro ⟨hlen, hplain⟩
    have hfits : ∀ p ∈ ps, p.fits = true := fun p hp =>
      fits_of_plain (hplain p hp) (Nat.lt_of_le_of_lt (length_sprintf_le hp) hlen)
    have htext : writtenAll ps = sprintfAll ps :=
      List.flatMap_congr fun p hp => written_eq_sprintf (hfits p hp) (hplain p hp)
    rw [htext, if_pos ⟨List.all_eq_true.2 hfits, hlen⟩]

/-- A negative number in a field that is wider: the field comes out one character too long. -/
theorem xsprintf_sprintf_negative :
    ¬ ∀ ps : List Piece, (sprintfAll ps).length < 2 ^ 31 → AgreesWithC ps := by
  intro h
  have hcall := h [.int ⟨5, false, false⟩ (-42)] (by decide)
  exact absurd (congrArg (Option.map Written.written) hcall) (by decide)

end OnkenOS
