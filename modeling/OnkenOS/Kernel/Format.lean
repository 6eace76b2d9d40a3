import OnkenOS.Kernel.CString
import Mathlib.Algebra.GroupWithZero.Nat

/-!
# `xsprintf`

The formatter of `kernel/string.c`. The flags and the width of a conversion are scanned first,
then one character decides what is written. `none` is a call that reads past the end of its
format, or an argument that is not there.
-/

namespace OnkenOS

/-- A variable argument: a `char*`, or an `int` (also where the caller passes a `uint32_t`). -/
inductive Arg where
  | str (s : List UInt8)
  | int (v : BitVec 32)

/-- The variables of a conversion. -/
structure Conv where
  width : Nat
  padZero : Bool
  alignLeft : Bool

/-- `while (*format >= '0' && *format <= '9')`. -/
def scanWidth (width : Nat) : List UInt8 → Nat × List UInt8
  | [] => (width, [])
  | c :: format =>
      if 48 ≤ c ∧ c ≤ 57 then scanWidth (width * 10 + (c.toNat - 48)) format
      else (width, c :: format)

/-- `if (*format == c) { flag = 1; format++; }`. -/
def scanFlag (c : UInt8) : List UInt8 → Bool × List UInt8
  | [] => (false, [])
  | d :: format => if d = c then (true, format) else (false, d :: format)

/-- The flags and the width after a percent sign, and what follows them. -/
def scanConv (format : List UInt8) : Conv × List UInt8 :=
  let (alignLeft, format) := scanFlag 45 format
  let (padZero, format) := scanFlag 48 format
  let (width, format) := scanWidth 0 format
  (⟨width, padZero, alignLeft⟩, format)

/-- `num_buf`: the digits of a number from the last to the first, at most `fuel` of them. -/
def numBuf : Nat → Nat → List UInt8
  | 0, _ => []
  | fuel + 1, val =>
      if val > 0 then (val % 10 + 48).toUInt8 :: numBuf fuel (val / 10) else []

/-- What `%s` writes. -/
def convStr (f : Conv) (s : List UInt8) : List UInt8 :=
  let pad := List.replicate (f.width - strlen s) 32
  if f.alignLeft then cstr s ++ pad else pad ++ cstr s

/-- The contents of `num_buf` for an `int`. A positive one has at most ten digits. -/
def intBuf (val : BitVec 32) : List UInt8 :=
  if val = 0 then [48] else numBuf 10 val.toInt.toNat

/-- What `%d` writes. -/
def convInt (f : Conv) (v : BitVec 32) : List UInt8 :=
  let num := intBuf (if v.toInt < 0 then -v else v)
  (if v.toInt < 0 then [45] else []) ++
    List.replicate (f.width - num.length) (if f.padZero then 48 else 32) ++ num.reverse

/-- The loop of `xsprintf`, at most `fuel` times. -/
def xsprintfLoop : Nat → List UInt8 → List Arg → Option (List UInt8)
  | 0, _, _ => some []
  | _ + 1, [], _ => some []
  | fuel + 1, c :: format, args =>
      if c = 37 then
        let (f, format) := scanConv format
        match format with
        | [] => none
        | c :: format =>
            if c = 115 then
              match args with
              | .str s :: args => (xsprintfLoop fuel format args).map (convStr f s ++ ·)
              | _ => none
            else if c = 100 then
              match args with
              | .int v :: args => (xsprintfLoop fuel format args).map (convInt f v ++ ·)
              | _ => none
            else if c = 99 then
              match args with
              | .int v :: args =>
                  (xsprintfLoop fuel format args).map (v.toNat.toUInt8 :: ·)
              | _ => none
            else (xsprintfLoop fuel format args).map fun out => 37 :: c :: out
      else (xsprintfLoop fuel format args).map (c :: ·)

/-- `xsprintf`: the characters it writes before the NUL. -/
def xsprintf (format : List UInt8) (args : List Arg) : Option (List UInt8) :=
  xsprintfLoop (cstr format).length (cstr format) args

section
variable {f : Conv} {v : BitVec 32}

/-- `%s`, without a width. -/
theorem convStr_plain (s : List UInt8) : convStr ⟨0, false, false⟩ s = cstr s := by
  simp [convStr]

/-- `%s` writes the string, padded to the width if it is shorter. -/
theorem length_convStr (f : Conv) (s : List UInt8) :
    (convStr f s).length = max f.width (strlen s) := by
  unfold convStr
  split <;> simp only [List.length_append, List.length_replicate, strlen] <;> omega

/-- There is at most one digit for each round. -/
theorem length_numBuf_le_fuel (fuel val : Nat) : (numBuf fuel val).length ≤ fuel := by
  induction fuel generalizing val with
  | zero => exact Nat.le_refl 0
  | succ fuel ih =>
      rw [numBuf]
      split
      · exact Nat.succ_le_succ (ih (val / 10))
      · exact Nat.zero_le _

/-- A number below `10 ^ k` has at most `k` digits: dividing by ten takes one of them off. -/
theorem length_numBuf_le {fuel val k : Nat} (h : val < 10 ^ k) : (numBuf fuel val).length ≤ k := by
  induction k generalizing fuel val with
  | zero =>
      have h0 : val = 0 := by omega
      cases fuel <;> simp [numBuf, h0]
  | succ k ih =>
      cases fuel with
      | zero => exact Nat.zero_le _
      | succ fuel =>
          rw [numBuf]
          split
          · have hdiv : val / 10 < 10 ^ k := by rw [Nat.pow_succ] at h; omega
            exact Nat.succ_le_succ (ih hdiv)
          · exact Nat.zero_le _

/-- An `int` has at most ten digits. -/
theorem length_intBuf_le_ten (val : BitVec 32) : (intBuf val).length ≤ 10 := by
  unfold intBuf
  split
  · exact Nat.le_of_ble_eq_true rfl
  · exact length_numBuf_le_fuel 10 _

/-- `%d` writes at most a sign and ten digits, or a sign and the width. -/
theorem length_convInt_le (f : Conv) (v : BitVec 32) :
    (convInt f v).length ≤ max f.width 10 + 1 := by
  have hnum := length_intBuf_le_ten (if v.toInt < 0 then -v else v)
  unfold convInt
  simp only [List.length_append, List.length_replicate, List.length_reverse]
  generalize (intBuf _).length = len at hnum
  split <;> simp only [List.length_cons, List.length_nil] <;> omega

/-- Without a width, `%d` writes the digits of a small number and no sign. -/
theorem length_convInt_small {k : Nat} (hk : 0 < k) (hw : f.width = 0) (h : v.toNat < 2 ^ 31)
    (hv : v.toNat < 10 ^ k) : (convInt f v).length ≤ k := by
  have hint : v.toInt = v.toNat := BitVec.toInt_eq_toNat_of_lt (by omega)
  have hpos : ¬ v.toInt < 0 := by omega
  have hnum : (intBuf v).length ≤ k := by
    unfold intBuf
    split
    · exact hk
    · rw [hint, Int.toNat_natCast]
      exact length_numBuf_le hv
  unfold convInt
  simp only [if_neg hpos, hw, List.length_append, List.length_replicate, List.length_reverse,
    List.length_nil]
  omega

end

/-! ## How much is written -/

/-- What an argument takes without a width. -/
def Arg.size : Arg → Nat
  | .str s => strlen s
  | .int v => (convInt ⟨0, false, false⟩ v).length

/-- The literal characters and the widths in a format. -/
def formatSizeLoop : Nat → List UInt8 → Nat
  | 0, _ => 0
  | _ + 1, [] => 0
  | fuel + 1, c :: format =>
      if c = 37 then
        let (f, format) := scanConv format
        match format with
        | [] => 0
        | c :: format =>
            (if c = 115 ∨ c = 100 then f.width else 2) + formatSizeLoop fuel format
      else 1 + formatSizeLoop fuel format

/-- The literal characters and the widths in a format. -/
def formatSize (format : List UInt8) : Nat := formatSizeLoop (cstr format).length (cstr format)

section
variable {fuel : Nat} {format out : List UInt8} {args : List Arg} {v : BitVec 32}

/-- An `int` takes at most eleven characters, with its sign. -/
theorem size_int_le (v : BitVec 32) : (Arg.int v).size ≤ 11 :=
  length_convInt_le ⟨0, false, false⟩ v

/-- A number below `10 ^ k` takes at most `k` characters. -/
theorem size_int_small {k : Nat} (hk : 0 < k) (h : v.toNat < 2 ^ 31) (hv : v.toNat < 10 ^ k) :
    (Arg.int v).size ≤ k := length_convInt_small hk rfl h hv

/-- A width adds at most itself to the length of a number. -/
theorem length_convInt_le_size (f : Conv) (v : BitVec 32) :
    (convInt f v).length ≤ f.width + (Arg.int v).size := by
  unfold Arg.size convInt
  simp only [List.length_append, List.length_replicate, List.length_reverse]
  omega

/-- A conversion takes its width; one that `xsprintf` does not know takes two characters, the
percent sign and its own. -/
theorem formatSizeLoop_conv {f : Conv} {c : UInt8} {rest : List UInt8}
    (h : scanConv format = (f, c :: rest)) :
    formatSizeLoop (fuel + 1) (37 :: format) =
      (if c = 115 ∨ c = 100 then f.width else 2) + formatSizeLoop fuel rest := by
  rw [formatSizeLoop, if_pos rfl]
  simp only [h]

/-- A plain character takes one. -/
theorem formatSizeLoop_char {c : UInt8} (h : c ≠ 37) :
    formatSizeLoop (fuel + 1) (c :: format) = 1 + formatSizeLoop fuel format := by
  rw [formatSizeLoop, if_neg h]

/-- What is written is no longer than the literals, the widths and the arguments. -/
theorem length_xsprintfLoop_le (h : xsprintfLoop fuel format args = some out) :
    out.length ≤ formatSizeLoop fuel format + (args.map Arg.size).sum := by
  fun_induction xsprintfLoop fuel format args generalizing out with
  | case1 | case2 =>
      rw [← Option.some.inj h]
      exact Nat.zero_le _
  | case3 | case5 | case7 | case9 => cases h
  | case4 _ _ f _ s _ hscan ih =>
      obtain ⟨tail, htail, rfl⟩ := Option.map_eq_some_iff.1 h
      have hlen := ih htail
      rw [formatSizeLoop_conv hscan, if_pos (.inl rfl), List.length_append, length_convStr,
        List.map_cons, List.sum_cons, Arg.size]
      omega
  | case6 _ _ f _ v _ _ hscan ih =>
      obtain ⟨tail, htail, rfl⟩ := Option.map_eq_some_iff.1 h
      have hlen := ih htail
      have hconv := length_convInt_le_size f v
      rw [formatSizeLoop_conv hscan, if_pos (.inr rfl), List.length_append, List.map_cons,
        List.sum_cons]
      omega
  | case8 _ _ _ _ _ _ _ _ hscan ih =>
      obtain ⟨tail, htail, rfl⟩ := Option.map_eq_some_iff.1 h
      have hlen := ih htail
      rw [formatSizeLoop_conv hscan, if_neg (by decide), List.length_cons, List.map_cons,
        List.sum_cons]
      omega
  | case10 _ _ _ _ c _ hs hd _ hscan ih =>
      obtain ⟨tail, htail, rfl⟩ := Option.map_eq_some_iff.1 h
      have hlen := ih htail
      rw [formatSizeLoop_conv hscan, if_neg (by simp [hs, hd]), List.length_cons,
        List.length_cons]
      omega
  | case11 _ _ _ _ hc ih =>
      obtain ⟨tail, htail, rfl⟩ := Option.map_eq_some_iff.1 h
      have hlen := ih htail
      rw [formatSizeLoop_char hc, List.length_cons]
      omega

/-- A call writes at most the size of its format and the sizes of its arguments: the bound that the
messages of the terminal are checked with. -/
theorem length_xsprintf_le (h : xsprintf format args = some out) :
    out.length ≤ formatSize format + (args.map Arg.size).sum := length_xsprintfLoop_le h

end

end OnkenOS
