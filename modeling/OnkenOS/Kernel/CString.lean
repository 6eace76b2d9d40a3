import Mathlib.Algebra.Group.Nat.Defs
import Mathlib.Data.List.Basic

/-!
# C strings

The string functions of `kernel/string.c`. A `char*` is the list of the bytes from where it
points to the end of what the code may read; the NUL of a string literal or of an argument is
the end of the list, and a `char` array is the list of all its bytes, so that its string ends
at its first zero byte.
-/

namespace OnkenOS

/-- The bytes of a string literal. -/
def str (s : String) : List UInt8 := s.toList.map fun c => c.toNat.toUInt8

/-- The string a `char*` points to. -/
def cstr (s : List UInt8) : List UInt8 := s.takeWhile (· ≠ 0)

/-- `strlen`. -/
def strlen (s : List UInt8) : Nat := (cstr s).length

/-- `strcmp`. -/
def strcmp : List UInt8 → List UInt8 → Int
  | c :: s, d :: t => if c ≠ 0 ∧ c = d then strcmp s t else c.toNat - d.toNat
  | c :: _, [] => c.toNat
  | [], d :: _ => -d.toNat
  | [], [] => 0

/-- `strncmp`. -/
def strncmp (s t : List UInt8) : Nat → Int
  | 0 => 0
  | n + 1 =>
      if s.headD 0 ≠ 0 ∧ s.headD 0 = t.headD 0 then strncmp s.tail t.tail n
      else (s.headD 0).toNat - (t.headD 0).toNat

/-- `strchr`. -/
def strchr (c : UInt8) : List UInt8 → Option (List UInt8)
  | [] => none
  | d :: s => if d = 0 then none else if d = c then some (d :: s) else strchr c s

/-- `strtok(s, delim)`: the token and `last_strtok`. A null `s` is `last_strtok` itself. -/
def strtok (delim : List UInt8) : Option (List UInt8) → Option (List UInt8) × Option (List UInt8)
  | none => (none, none)
  | some s =>
      let s := (cstr s).dropWhile fun c => (strchr c delim).isSome
      if s = [] then (none, none)
      else
        let start := s.takeWhile fun c => (strchr c delim).isNone
        match s.drop start.length with
        | [] => (some start, none)
        | _ :: s => (some start, some s)

/-- `strncat(dest, src, n)`, the string it leaves in `dest`. -/
def strncat (dest src : List UInt8) (n : Nat) : List UInt8 := cstr dest ++ (cstr src).take n

/-- `strncpy(dest, src, n)`: once the source has ended, the rest of the `n` bytes is zeros. -/
def strncpy (dest src : List UInt8) : Nat → List UInt8
  | 0 => dest
  | n + 1 =>
      match src with
      | [] => 0 :: strncpy dest.tail [] n
      | c :: src =>
          if c = 0 then 0 :: strncpy dest.tail [] n else c :: strncpy dest.tail src n

section
variable {s t : List UInt8} {c : UInt8}

@[simp] theorem cstr_nil : cstr [] = [] := rfl

/-- A string of C ends at its first NUL. -/
theorem cstr_cons : cstr (c :: s) = if c = 0 then [] else c :: cstr s := by
  unfold cstr
  by_cases h : c = 0 <;> simp [h]

/-- A string holds no zero byte. -/
theorem zero_not_mem_cstr (s : List UInt8) : 0 ∉ cstr s := by
  induction s with
  | nil => exact List.not_mem_nil
  | cons c s ih =>
      rw [cstr_cons]
      split
      · exact List.not_mem_nil
      · next hc => exact fun h => (List.mem_cons.1 h).elim (fun h0 => hc h0.symm) ih

/-- The string of an array that ends, or goes on with a zero byte. -/
theorem cstr_append (hs : 0 ∉ s) (t : List UInt8) : cstr (s ++ t) = s ++ cstr t := by
  induction s with
  | nil => rfl
  | cons c s ih =>
      rw [List.mem_cons, not_or] at hs
      rw [List.cons_append, cstr_cons, if_neg (Ne.symm hs.1), ih hs.2, List.cons_append]

/-- `strlen` stays in the array, if there is a NUL in it or behind it. -/
theorem strlen_le_length (s : List UInt8) : strlen s ≤ s.length :=
  (List.takeWhile_sublist _).length_le

/-- A string ends before a zero byte: if one is at the place `n`, it has at most `n` characters. -/
theorem length_cstr_le {n : Nat} (h : s[n]? = some 0) : (cstr s).length ≤ n := by
  induction s generalizing n with
  | nil => exact Nat.zero_le n
  | cons c s ih =>
      rw [cstr_cons]
      cases n with
      | zero =>
          rw [List.getElem?_cons_zero, Option.some.injEq] at h
          rw [if_pos h]
          exact Nat.le_refl 0
      | succ n =>
          rw [List.getElem?_cons_succ] at h
          split
          · exact Nat.zero_le _
          · exact Nat.succ_le_succ (ih h)

/-- The string behind its first `n` bytes is the string from there on, if it has so many. -/
theorem cstr_drop {n : Nat} (h : n ≤ strlen s) : cstr (s.drop n) = (cstr s).drop n := by
  induction s generalizing n with
  | nil => simp
  | cons c s ih =>
      cases n with
      | zero => rfl
      | succ n =>
          have hc : c ≠ 0 := by
            intro h0
            simp [strlen, cstr_cons, h0] at h
          simp only [strlen, cstr_cons, if_neg hc, List.length_cons, Nat.add_le_add_iff_right] at h
          rw [cstr_cons, if_neg hc]
          exact ih h

/-- A list of non-zero bytes is its own string. -/
theorem cstr_of_zero_not_mem (hs : 0 ∉ s) : cstr s = s := by
  have h := cstr_append hs []
  rwa [List.append_nil, cstr_nil, List.append_nil] at h

/-- The difference that `strcmp` returns is zero for equal bytes only: it is taken of `unsigned
char`s, as `int`s. -/
theorem toNat_sub_eq_zero (a b : UInt8) : (a.toNat : Int) - b.toNat = 0 ↔ a = b := by
  rw [← UInt8.toNat_inj]
  omega

/-- The same against the NUL at the end of the other string. -/
theorem toNat_int_eq_zero (a : UInt8) : (a.toNat : Int) = 0 ↔ a = 0 := by
  rw [← UInt8.toNat_inj]
  exact Int.natCast_eq_zero

/-- `strcmp` returns zero on equal strings only: it stops at the first difference, or at the end of
both. -/
theorem strcmp_eq_zero_iff (s t : List UInt8) : strcmp s t = 0 ↔ cstr s = cstr t := by
  fun_induction strcmp s t with
  | case1 c s d t h ih =>
      obtain ⟨hc, rfl⟩ := h
      rw [cstr_cons, cstr_cons, if_neg hc, if_neg hc, List.cons.injEq]
      exact ih.trans (and_iff_right rfl).symm
  | case2 c s d t h =>
      rw [toNat_sub_eq_zero, cstr_cons, cstr_cons]
      by_cases hc : c = 0
      · by_cases hd : d = 0
        · simp [hc, hd]
        · simp [hc, hd, Ne.symm hd]
      · have hcd : c ≠ d := fun hcd => h ⟨hc, hcd⟩
        by_cases hd : d = 0
        · simp [hc, hd]
        · simp [hc, hd, hcd]
  | case3 c s =>
      rw [toNat_int_eq_zero, cstr_cons]
      split
      · next hc => exact ⟨fun _ => rfl, fun _ => hc⟩
      · next hc => exact ⟨fun h => absurd h hc, fun h => nomatch h⟩
  | case4 d t =>
      rw [Int.neg_eq_zero, toNat_int_eq_zero, cstr_cons]
      split
      · next hd => exact ⟨fun _ => rfl, fun _ => hd⟩
      · next hd => exact ⟨fun h => absurd h hd, fun h => nomatch h⟩
  | case5 => exact ⟨fun _ => rfl, fun _ => rfl⟩

/-- What `strncpy` stores: the first `n` bytes of the string, and zeros. -/
theorem strncpy_eq (dest src : List UInt8) (n : Nat) :
    strncpy dest src n =
      (cstr src).take n ++ List.replicate (n - (cstr src).length) 0 ++ dest.drop n := by
  have hpad : ∀ dest : List UInt8, ∀ n, strncpy dest [] n = List.replicate n 0 ++ dest.drop n := by
    intro dest n
    induction n generalizing dest with
    | zero => rfl
    | succ n ih =>
        rw [strncpy, ih, List.drop_tail, List.replicate_succ, List.cons_append]
  induction n generalizing dest src with
  | zero => simp [strncpy]
  | succ n ih =>
      cases src with
      | nil => simpa using hpad dest (n + 1)
      | cons c src =>
          rw [strncpy, cstr_cons]
          split
          · rw [hpad, List.drop_tail]
            simp [List.replicate_succ]
          · rw [ih, List.drop_tail]
            simp

/-- `strncpy` fills as many bytes as it is told and leaves the length of its array. -/
theorem length_strncpy {dest : List UInt8} {n : Nat} (src : List UInt8) (hn : n ≤ dest.length) :
    (strncpy dest src n).length = dest.length := by
  rw [strncpy_eq]
  simp only [List.length_append, List.length_take, List.length_replicate, List.length_drop]
  omega

/-- `strncpy(dest, src, n); dest[n] = 0;` in an array of `n + 1` bytes. -/
theorem cstr_strncpy_set {dest : List UInt8} {n : Nat} (src : List UInt8)
    (hn : dest.length = n + 1) : cstr ((strncpy dest src n).set n 0) = (cstr src).take n := by
  obtain ⟨last, hlast⟩ := List.length_eq_one_iff.1
    (show (dest.drop n).length = 1 by rw [List.length_drop]; omega)
  have hzero : 0 ∉ (cstr src).take n := fun h => zero_not_mem_cstr src (List.mem_of_mem_take h)
  have hlen : ((cstr src).take n ++ List.replicate (n - (cstr src).length) 0).length = n := by
    simp only [List.length_append, List.length_take, List.length_replicate]
    omega
  rw [strncpy_eq, hlast, List.set_append, if_neg (by rw [hlen]; omega), hlen, Nat.sub_self,
    List.set_cons_zero, List.append_assoc, cstr_append hzero]
  cases hk : n - (cstr src).length with
  | zero => simp [cstr_cons]
  | succ k => simp [List.replicate_succ, cstr_cons]

end

end OnkenOS
