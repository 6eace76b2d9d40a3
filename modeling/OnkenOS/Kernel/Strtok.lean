import OnkenOS.Kernel.CString
import OnkenOS.Lib.Tokens

/-!
# `strtok`, in memory

`strtok` of `kernel/string.c` as it works on memory: it stores a NUL behind each token it returns,
and `last_strtok` is where the next call goes on. `strtok` on lists is what its callers see of it
(`strtokCall_refines`). Called again and again it returns the tokens of the string, and a call
without delimiters returns what is left (`strtok_enumerates`).
-/

namespace OnkenOS

open Tokens

/-- The memory and `last_strtok`. A `char*` is an index, and behind the end of the memory there is
a zero. -/
structure StrtokState where
  mem : List UInt8
  lastStrtok : Option Nat

/-- The string at an address. -/
def StrtokState.string (t : StrtokState) (q : Nat) : List UInt8 := cstr (t.mem.drop q)

/-- `while (*s && test(*s)) s++;`: how far `s` goes. -/
def steps (test : UInt8 → Bool) : List UInt8 → Nat
  | [] => 0
  | c :: s => if c ≠ 0 ∧ test c then steps test s + 1 else 0

/-- `strtok(s, delim)`. The delimiters are not in the memory that is written. -/
def strtokCall (t : StrtokState) (s : Option Nat) (delim : List UInt8) :
    Option Nat × StrtokState :=
  match s.or t.lastStrtok with
  | none => (none, t)
  | some s =>
      let s := s + steps (fun c => (strchr c delim).isSome) (t.mem.drop s)
      if t.mem.getD s 0 = 0 then (none, { t with lastStrtok := none })
      else
        let start := s
        let s := s + steps (fun c => (strchr c delim).isNone) (t.mem.drop s)
        if t.mem.getD s 0 ≠ 0 then
          (some start, { mem := t.mem.set s 0, lastStrtok := some (s + 1) })
        else (some start, { t with lastStrtok := none })

/-- `strtok(NULL, delim)`, `n` times: the pointers that are returned. -/
def strtokCalls (delim : List UInt8) : Nat → StrtokState → List (Option Nat) × StrtokState
  | 0, t => ([], t)
  | n + 1, t =>
      let (p, t) := strtokCall t none delim
      let (ps, t) := strtokCalls delim n t
      (p :: ps, t)

/-- The byte is a delimiter. -/
def isDelim (delim : List UInt8) (c : UInt8) : Bool := decide (c ∈ cstr delim)

section
variable {s : List UInt8}

/-! ## Strings -/

/-- `strchr` finds exactly the delimiters. -/
theorem isSome_strchr (c : UInt8) (delim : List UInt8) :
    (strchr c delim).isSome = isDelim delim c := by
  unfold isDelim
  induction delim with
  | nil => rfl
  | cons d delim ih =>
      rw [strchr, cstr_cons]
      split
      · simp
      · split
        · next hd => simp [hd]
        · next hd => simp [ih, Ne.symm hd]

/-- It returns null for the other bytes. -/
theorem isNone_strchr (c : UInt8) (delim : List UInt8) :
    (strchr c delim).isNone = !isDelim delim c := by
  rw [← isSome_strchr, Option.not_isSome]

/-- The loop stops at the first byte that fails the test, or at the NUL. -/
theorem steps_eq (test : UInt8 → Bool) (s : List UInt8) :
    steps test s = ((cstr s).takeWhile test).length := by
  induction s with
  | nil => rfl
  | cons c s ih =>
      rw [steps, cstr_cons]
      by_cases hc : c = 0
      · simp [hc]
      · by_cases htest : test c = true <;> simp [hc, htest, ih]

/-- The byte at the end of the steps: the string goes on with it, or ends there. -/
theorem getD_steps (s : List UInt8) {n : Nat} (hn : n ≤ (cstr s).length) :
    s.getD n 0 = ((cstr s).drop n).headD 0 := by
  induction s generalizing n with
  | nil => simp
  | cons c s ih =>
      rw [cstr_cons] at hn ⊢
      split
      · next hc =>
          rw [if_pos hc] at hn
          obtain rfl : n = 0 := Nat.le_zero.1 hn
          simp [hc]
      · next hc =>
          rw [if_neg hc] at hn
          cases n with
          | zero => rfl
          | succ n => simpa using ih (Nat.le_of_succ_le_succ hn)

/-- A stored NUL ends the string where it is stored, or the string ended before. -/
theorem cstr_set {n : Nat} (hn : n < s.length) : cstr (s.set n 0) = (cstr s).take n := by
  induction s generalizing n with
  | nil => cases hn
  | cons c s ih =>
      cases n with
      | zero => simp [cstr_cons]
      | succ n =>
          rw [List.set_cons_succ, cstr_cons, cstr_cons, ih (Nat.lt_of_succ_lt_succ hn)]
          split
          · rfl
          · rw [List.take_succ_cons]

/-- A string has no zero, so its first byte tells if it is empty. -/
theorem headD_eq_zero_iff (hs : 0 ∉ s) : s.headD 0 = 0 ↔ s = [] := by
  cases s with
  | nil => simp
  | cons c s =>
      have hc : c ≠ 0 := fun h => hs (h ▸ .head s)
      simp [hc]

end

namespace StrtokState

section
variable (t : StrtokState) {p n : Nat}

/-- The string at an address ends before its NUL. -/
theorem zero_not_mem_string (p : Nat) : 0 ∉ t.string p := zero_not_mem_cstr _

/-- Further on in a string there is the rest of it. -/
theorem string_add (hn : n ≤ (t.string p).length) : t.string (p + n) = (t.string p).drop n := by
  unfold string at hn ⊢
  rw [← List.drop_drop]
  exact cstr_drop hn

/-- The byte after some bytes of a string: a zero if these are all. -/
theorem getD_add (hn : n ≤ (t.string p).length) :
    t.mem.getD (p + n) 0 = 0 ↔ (t.string p).drop n = [] := by
  have hbyte : t.mem.getD (p + n) 0 = (t.mem.drop p).getD n 0 := by
    simp [List.getD_eq_getElem?_getD]
  have hzero : 0 ∉ (t.string p).drop n :=
    fun h => t.zero_not_mem_string p (List.mem_of_mem_drop h)
  rw [hbyte, getD_steps _ hn]
  exact headD_eq_zero_iff hzero

/-- A NUL stored behind some bytes of a string leaves those bytes as the string. -/
theorem string_set {q z : Nat} (hz : z < t.mem.length) (hq : q ≤ z) (l : Option Nat) :
    (⟨t.mem.set z 0, l⟩ : StrtokState).string q = (t.string q).take (z - q) := by
  unfold string
  rw [List.drop_set, if_neg (by omega), cstr_set (by rw [List.length_drop]; omega)]

/-- The string behind a stored NUL is the one that was there. -/
theorem string_set_succ {z : Nat} (l : Option Nat) :
    (⟨t.mem.set z 0, l⟩ : StrtokState).string (z + 1) = t.string (z + 1) := by
  unfold string
  rw [List.drop_set_of_lt (Nat.lt_succ_self z)]

end

end StrtokState

/-! ## A call -/

section
variable {t : StrtokState} {s : Option Nat} {p : Nat}

/-- Behind the longest beginning of a kind is what is left without it. -/
theorem drop_takeWhile {α : Type} (q : α → Bool) (l : List α) :
    l.drop (l.takeWhile q).length = l.dropWhile q := by
  have h : (l.takeWhile q ++ l.dropWhile q).drop (l.takeWhile q).length = l.dropWhile q :=
    List.drop_left
  rwa [List.takeWhile_append_dropWhile] at h

/-- What a call does, by what is left of the string at `p`: nothing but delimiters, a last token, or
a token and something behind it. -/
theorem strtokCall_cases (hp : s.or t.lastStrtok = some p) (delim : List UInt8) :
    (body (isDelim delim) (t.string p) = [] ∧
        strtokCall t s delim = (none, { t with lastStrtok := none })) ∨
      body (isDelim delim) (t.string p) ≠ [] ∧ ∃ start, p ≤ start ∧
        t.string start = body (isDelim delim) (t.string p) ∧
        ((word (isDelim delim) (t.string start) = t.string start ∧
            strtokCall t s delim = (some start, { t with lastStrtok := none })) ∨
          ∃ z, z = start + (word (isDelim delim) (t.string start)).length ∧
            (t.string start).drop (z - start) ≠ [] ∧ z < t.mem.length ∧
            strtokCall t s delim = (some start, ⟨t.mem.set z 0, some (z + 1)⟩)) := by
  have hskip : ((t.string p).takeWhile (isDelim delim)).length ≤ (t.string p).length :=
    (List.takeWhile_sublist _).length_le
  have hstart : t.string (p + ((t.string p).takeWhile (isDelim delim)).length) =
      body (isDelim delim) (t.string p) := by
    rw [t.string_add hskip, drop_takeWhile, body]
  have hfirst := t.getD_add hskip
  rw [drop_takeWhile] at hfirst
  have hcall : strtokCall t s delim =
      if t.mem.getD (p + ((t.string p).takeWhile (isDelim delim)).length) 0 = 0 then
        (none, { t with lastStrtok := none })
      else
        let start := p + ((t.string p).takeWhile (isDelim delim)).length
        let z := start + (word (isDelim delim) (t.string start)).length
        if t.mem.getD z 0 ≠ 0 then (some start, ⟨t.mem.set z 0, some (z + 1)⟩)
        else (some start, { t with lastStrtok := none }) := by
    unfold strtokCall
    rw [hp]
    simp only [isSome_strchr, isNone_strchr, steps_eq]
    rfl
  rw [hcall]
  by_cases hnil : body (isDelim delim) (t.string p) = []
  · exact .inl ⟨hnil, if_pos (hfirst.2 hnil)⟩
  · rw [if_neg (fun h0 => hnil (hfirst.1 h0))]
    refine .inr ⟨hnil, _, Nat.le_add_right _ _, hstart, ?_⟩
    generalize p + ((t.string p).takeWhile (isDelim delim)).length = start
    dsimp only
    have hlen : (word (isDelim delim) (t.string start)).length ≤ (t.string start).length :=
      (List.takeWhile_sublist _).length_le
    have hlast := t.getD_add hlen
    split
    · next hbyte =>
        have hmore := mt hlast.2 hbyte
        refine .inr ⟨_, rfl, by rwa [Nat.add_sub_cancel_left], ?_, rfl⟩
        by_contra hlt
        refine hbyte ?_
        rw [List.getD_eq_getElem?_getD, List.getElem?_eq_none (Nat.le_of_not_lt hlt)]
        rfl
    · next hbyte =>
        have hend := hlast.1 (not_not.1 hbyte)
        refine .inl ⟨?_, rfl⟩
        rw [List.drop_eq_nil_iff] at hend
        exact (List.takeWhile_prefix _).eq_of_length_le hend

/-- The token whose end was stored, and what is behind it: the zero that is written over the
delimiter ends the one, and does not touch the other. -/
theorem string_stored (t : StrtokState) (d : UInt8 → Bool) {start z : Nat}
    (hz : z = start + (word d (t.string start)).length)
    (hmore : (t.string start).drop (z - start) ≠ []) (hlt : z < t.mem.length) :
    (⟨t.mem.set z 0, some (z + 1)⟩ : StrtokState).string start = word d (t.string start) ∧
      (⟨t.mem.set z 0, some (z + 1)⟩ : StrtokState).string (z + 1) =
        ((t.string start).dropWhile fun c => !d c).tail := by
  have hsub : z - start = (word d (t.string start)).length := by omega
  have hlen : z - start < (t.string start).length := by
    simpa using hmore
  constructor
  · rw [t.string_set hlt (by omega), hsub]
    exact (List.prefix_iff_eq_take.1 (List.takeWhile_prefix _)).symm
  · have hadd := t.string_add (p := start) (n := z - start + 1) hlen
    rw [show start + (z - start + 1) = z + 1 by omega, ← List.tail_drop, hsub] at hadd
    rw [t.string_set_succ, hadd]
    exact congrArg List.tail (drop_takeWhile _ _)

/-- `strtok` on lists, by the first token: what is returned, and what the next call goes on with. -/
theorem strtok_eq (delim m : List UInt8) :
    strtok delim (some m) =
      if body (isDelim delim) (cstr m) = [] then (none, none)
      else
        (some (word (isDelim delim) (body (isDelim delim) (cstr m))),
          if (body (isDelim delim) (cstr m)).dropWhile (fun c => !isDelim delim c) = [] then none
          else some (behind (isDelim delim) (cstr m))) := by
  simp only [strtok, isSome_strchr, isNone_strchr]
  change (if body (isDelim delim) (cstr m) = [] then _ else _) = _
  split
  · rfl
  · change (match (body (isDelim delim) (cstr m)).drop
      ((body (isDelim delim) (cstr m)).takeWhile fun c => !isDelim delim c).length with
      | [] => _
      | _ :: s => _) = _
    rw [drop_takeWhile]
    unfold behind
    cases (body (isDelim delim) (cstr m)).dropWhile fun c => !isDelim delim c with
    | nil => rfl
    | cons c rest => rfl

/-- **The tokens the callers see.** What a call returns and where the next one goes on are, as
strings, what `strtok` on lists has. -/
theorem strtokCall_refines (t : StrtokState) (s : Option Nat) (delim : List UInt8) :
    ((strtokCall t s delim).1.map (strtokCall t s delim).2.string,
      (strtokCall t s delim).2.lastStrtok.map (strtokCall t s delim).2.string) =
      strtok delim ((s.or t.lastStrtok).map fun p => t.mem.drop p) := by
  cases hp : s.or t.lastStrtok with
  | none =>
      obtain ⟨rfl, hlast⟩ := Option.or_eq_none_iff.1 hp
      have hcall : strtokCall t none delim = (none, t) := by
        simp [strtokCall, hlast]
      rw [hcall]
      dsimp only
      rw [hlast]
      rfl
  | some p =>
      have hstring : cstr (t.mem.drop p) = t.string p := rfl
      rw [Option.map_some, strtok_eq, hstring]
      rcases strtokCall_cases hp delim with
        ⟨hnil, hcall⟩ | ⟨hbody, start, -, hstart, ⟨hword, hcall⟩ | ⟨z, hz, hmore, hlt, hcall⟩⟩
      · rw [hcall, if_pos hnil]
        rfl
      · rw [hstart] at hword
        rw [hcall, if_neg hbody, if_pos (dropWhile_eq_nil_of_word hword), hword, ← hstart]
        rfl
      · obtain ⟨hfirst, hrest⟩ := string_stored t (isDelim delim) hz hmore hlt
        have hbehind : (t.string start).dropWhile (fun c => !isDelim delim c) ≠ [] := by
          rw [← drop_takeWhile]
          rwa [hz, Nat.add_sub_cancel_left] at hmore
        rw [hcall, if_neg hbody, ← hstart, if_neg hbehind]
        dsimp only [Option.map_some]
        rw [hfirst, hrest, hstart]
        rfl

end

/-! ## What is left to be read -/

/-- The string that the next call reads, if there is one. -/
def StrtokState.left (t : StrtokState) : List UInt8 := (t.lastStrtok.map t.string).getD []

/-- The string at `q` ends before the place where the next call goes on. -/
def StrtokState.Settled (t : StrtokState) (q : Nat) : Prop :=
  ∀ p, t.lastStrtok = some p → q + (t.string q).length < p

/-- What `strtok(NULL, delim)` does: it returns the first token, leaves what is behind it, and the
tokens that were returned before stay as they are. -/
structure Reads (d : UInt8 → Bool) (t t' : StrtokState) (r : Option Nat) : Prop where
  token : r.map t'.string = (tokens d t.left).head?
  left : t'.left = behind d t.left
  settled : ∀ q, r = some q → t'.Settled q
  keeps : ∀ q, t.Settled q → t'.Settled q ∧ t'.string q = t.string q

section
variable {t : StrtokState} {delim : List UInt8}

/-- After the last token a call returns null and changes nothing. -/
theorem reads_end (h : t.lastStrtok = none) :
    Reads (isDelim delim) t (strtokCall t none delim).2 (strtokCall t none delim).1 := by
  have hcall : strtokCall t none delim = (none, t) := by
    simp [strtokCall, h]
  have hleft : t.left = [] := by
    rw [StrtokState.left, h]
    rfl
  rw [hcall]
  refine ⟨?_, ?_, nofun, fun q hq => ⟨hq, rfl⟩⟩
  · rw [hleft]
    rfl
  · rw [hleft]
    rfl

/-- Every call returns the first token of what is left and leaves what is behind it: null at the
end, and null as well if only delimiters are left. -/
theorem strtokCall_reads (t : StrtokState) (delim : List UInt8) :
    Reads (isDelim delim) t (strtokCall t none delim).2 (strtokCall t none delim).1 := by
  cases hlast : t.lastStrtok with
  | none => exact reads_end hlast
  | some p =>
      have hleft : t.left = t.string p := by
        rw [StrtokState.left, hlast]
        rfl
      have hp : (none : Option Nat).or t.lastStrtok = some p := hlast
      rcases strtokCall_cases hp delim with
        ⟨hnil, hcall⟩ | ⟨hbody, start, hle, hstart, ⟨hword, hcall⟩ | ⟨z, hz, hmore, hlt, hcall⟩⟩
      · rw [hcall]
        refine ⟨?_, ?_, nofun, fun q hq => ⟨nofun, rfl⟩⟩
        · rw [hleft, tokens_eq_nil hnil]
          rfl
        · rw [hleft, behind_eq_nil hnil]
          rfl
      · rw [hcall]
        refine ⟨?_, ?_, fun q _ => nofun, fun q hq => ⟨nofun, rfl⟩⟩
        · rw [hleft, tokens_eq_cons hbody, ← hstart, hword]
          rfl
        · rw [hstart] at hword
          rw [hleft, behind, dropWhile_eq_nil_of_word hword]
          rfl
      · obtain ⟨hset, hrest⟩ := string_stored t (isDelim delim) hz hmore hlt
        rw [hcall]
        refine ⟨?_, ?_, fun q hq => ?_, fun q hq => ?_⟩
        · rw [hleft, tokens_eq_cons hbody, Option.map_some, hset, ← hstart]
          rfl
        · rw [hleft, behind, ← hstart]
          exact hrest
        · cases hq
          rintro l hl
          cases hl
          rw [hset]
          omega
        · have hbefore := hq p hlast
          have hkeep := t.string_set hlt (q := q) (by omega) (some (z + 1))
          rw [List.take_of_length_le (by omega)] at hkeep
          refine ⟨?_, hkeep⟩
          rintro l hl
          cases hl
          rw [hkeep]
          omega

/-! ## Calls -/

/-- `strtok(NULL, delim)` again and again: the tokens that are left, in order, each still in memory
after the last call. -/
theorem strtokCalls_reads (delim : List UInt8) (n : Nat) (t : StrtokState) :
    (strtokCalls delim n t).1.map (Option.map (strtokCalls delim n t).2.string) =
        (List.range n).map (fun k => (tokens (isDelim delim) t.left)[k]?) ∧
      (strtokCalls delim n t).2.left = (behind (isDelim delim))^[n] t.left ∧
      ∀ q, t.Settled q → (strtokCalls delim n t).2.string q = t.string q := by
  induction n generalizing t with
  | zero => exact ⟨rfl, rfl, fun _ _ => rfl⟩
  | succ n ih =>
      obtain ⟨htoken, hleft, hsettled, hkeeps⟩ := strtokCall_reads t delim
      obtain ⟨hmap, hrest, hstay⟩ := ih (strtokCall t none delim).2
      rw [strtokCalls]
      dsimp only
      refine ⟨?_, ?_, fun q hq => ?_⟩
      · have hfirst : (strtokCall t none delim).1.map
            (strtokCalls delim n (strtokCall t none delim).2).2.string =
            (tokens (isDelim delim) t.left)[0]? := by
          rw [← List.head?_eq_getElem?, ← htoken]
          exact Option.map_congr fun q hq => hstay q (hsettled q hq)
        rw [List.map_cons, hfirst, hmap, List.range_succ_eq_map, List.map_cons, List.map_map, hleft,
          tokens_behind]
        simp only [List.getElem?_tail, Function.comp_def]
      · rw [hrest, hleft, Function.iterate_succ_apply]
      · rw [hstay q (hkeeps q hq).1, (hkeeps q hq).2]

/-- `strtok(NULL, "")` returns what is left, if anything is. -/
theorem strtokCall_rest (t : StrtokState) :
    (strtokCall t none []).1.map (strtokCall t none []).2.string =
      if t.left = [] then none else some t.left := by
  have htoken := (strtokCall_reads t []).token
  have hnone : ∀ a ∈ t.left, isDelim [] a = false := fun _ _ => rfl
  rw [htoken]
  split
  · next hnil =>
      rw [hnil]
      rfl
  · next hne =>
      rw [tokens_word hnone hne]
      rfl

end

/-- **`strtok` enumerates the tokens.** For every string and every set of delimiters, the first call
and the calls with `NULL` return the tokens of the string, in order, and then `NULL`; the tokens
that were returned stay in memory. After any number of tokens, a call without delimiters returns
what follows the delimiter that ended the last one, or `NULL` if that is nothing. -/
theorem strtok_enumerates (t : StrtokState) (s : Nat) (delim : List UInt8) (n : Nat) :
    let first := strtokCall t (some s) delim
    let calls := strtokCalls delim n first.2
    let last := strtokCall calls.2 none []
    (first.1 :: calls.1).map (Option.map calls.2.string) =
        (List.range (n + 1)).map (fun k => (tokens (isDelim delim) (t.string s))[k]?) ∧
      ∃ rest, last.1.map last.2.string = (if rest = [] then none else some rest) ∧
        (n < (tokens (isDelim delim) (t.string s)).length →
          ∃ front, EndsToken (isDelim delim) (n + 1) (t.string s) front rest) ∧
        ((tokens (isDelim delim) (t.string s)).length ≤ n → rest = []) := by
  intro first calls last
  have hcalls := strtokCalls_reads delim (n + 1) { t with lastStrtok := some s }
  have hleft : StrtokState.left { t with lastStrtok := some s } = t.string s := rfl
  rw [hleft] at hcalls
  obtain ⟨hmap, hrest, -⟩ := hcalls
  refine ⟨hmap, (behind (isDelim delim))^[n + 1] (t.string s), ?_, endsToken_behind,
    behind_iterate_eq_nil⟩
  rw [← hrest]
  exact strtokCall_rest _

end OnkenOS
