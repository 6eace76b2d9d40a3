import OnkenOS.Kernel.SprintfScan

/-!
# What `xsprintf` reads of its format

A conversion that the string ends in has the NUL for its last character: it is written like that of
any unknown conversion, and the `format++` at the end of the loop goes past it. So nothing behind
the string is read exactly if the string does not end in a conversion (`xsprintf_reads_iff`).
-/

namespace OnkenOS

open While

/-- With enough rounds the call ends, and it has read no byte behind the NUL of its format. -/
def ReadsWithin (mem : List UInt8) (format : Nat) (args : List Arg) : Prop :=
  ∃ rounds, ∀ fuel ≥ rounds, ∃ s, xsprintfAt fuel mem format args = .ok s ∧
    ∀ a ∈ s.reads, a ≤ format + strlen (mem.drop format)

/-! ## Formats -/

/-- Where in a format a character stands: outside of the conversions, right behind a percent sign,
or in a width. -/
inductive FormatState where
  | text
  | percent
  | width
  deriving DecidableEq

def isDigit (c : UInt8) : Bool := decide (48 ≤ c ∧ c ≤ 57)

/-- The place of the next character. -/
def FormatState.next : FormatState → UInt8 → FormatState
  | .text, c => if c = 37 then .percent else .text
  | .percent, c => if c = 45 ∨ isDigit c then .width else .text
  | .width, c => if isDigit c then .width else .text

/-- The string does not end in a conversion. -/
def Finished (format : List UInt8) : Prop := format.foldl FormatState.next .text = .text

instance (format : List UInt8) : Decidable (Finished format) :=
  inferInstanceAs (Decidable (_ = _))

/-- The characters that end the conversions. -/
def convChars (q : FormatState) : List UInt8 → List UInt8
  | [] => []
  | c :: format =>
      (if q ≠ .text ∧ q.next c = .text then [c] else []) ++ convChars (q.next c) format

/-- The arguments have the types that conversions with these characters take. -/
def ArgsMatch : List UInt8 → List Arg → Prop
  | [], _ => True
  | c :: cs, args =>
      if c = 115 then ∃ s rest, args = .str s :: rest ∧ ArgsMatch cs rest
      else if c = 100 ∨ c = 99 then ∃ v rest, args = .int v :: rest ∧ ArgsMatch cs rest
      else ArgsMatch cs args

/-! ## Where a conversion ends -/

section
variable {w : List UInt8} {c : UInt8}

/-- Reading a width leaves what is behind its digits, overflow or not. -/
theorem scanWidth_snd (width : Nat) (w : List UInt8) :
    (scanWidth width w).2 = w.dropWhile isDigit := by
  induction w generalizing width with
  | nil => rfl
  | cons c w ih =>
      rw [scanWidth, List.dropWhile_cons]
      by_cases hc : 48 ≤ c ∧ c ≤ 57
      · have hdigit : isDigit c = true := decide_eq_true hc
        rw [if_pos hc, if_pos hdigit]
        exact ih _
      · have hdigit : ¬ isDigit c = true := fun h => hc (of_decide_eq_true h)
        rw [if_neg hc, if_neg hdigit]

/-- The flag `0` is one of the digits, so what is left behind flags and width is what is left behind
all digits. -/
theorem scanConv_snd (w : List UInt8) :
    (scanConv w).2 = (scanFlag 45 w).2.dropWhile isDigit := by
  change (scanWidth 0 (scanFlag 48 (scanFlag 45 w).2).2).2 = _
  rw [scanWidth_snd]
  cases (scanFlag 45 w).2 with
  | nil => rfl
  | cons c w =>
      rw [scanFlag]
      split
      · next hc => rw [hc]; rfl
      · rfl

/-- From a width on: the string ends in it, or it has the character that ends the conversion. -/
theorem width_cases (w : List UInt8) :
    (w.dropWhile isDigit = [] ∧ w.foldl FormatState.next .width = .width ∧
        convChars .width w = []) ∨
      ∃ c rest, w.dropWhile isDigit = c :: rest ∧
        w.foldl FormatState.next .width = rest.foldl FormatState.next .text ∧
        convChars .width w = c :: convChars .text rest := by
  induction w with
  | nil => exact .inl ⟨rfl, rfl, rfl⟩
  | cons c w ih =>
      rw [List.dropWhile_cons, List.foldl_cons, convChars, FormatState.next]
      cases isDigit c with
      | true => simpa using ih
      | false => exact .inr ⟨c, w, by simp⟩

/-- From a percent sign on: flags and width are read, and what is left is the character of the
conversion with what follows it, or nothing. -/
theorem scanConv_cases (w : List UInt8) :
    ((scanConv w).2 = [] ∧ w.foldl FormatState.next .percent ≠ .text ∧
        convChars .percent w = []) ∨
      ∃ c rest, (scanConv w).2 = c :: rest ∧
        w.foldl FormatState.next .percent = rest.foldl FormatState.next .text ∧
        convChars .percent w = c :: convChars .text rest := by
  rw [scanConv_snd]
  cases w with
  | nil => exact .inl ⟨rfl, by decide, rfl⟩
  | cons d w =>
      -- behind the flag `-`, or from the first character on, a percent sign is a width
      have hstart : ∃ v, (scanFlag 45 (d :: w)).2 = v ∧
          (d :: w).foldl FormatState.next .percent = v.foldl FormatState.next .width ∧
          convChars .percent (d :: w) = convChars .width v := by
        by_cases hd : d = 45
        · subst hd
          exact ⟨w, rfl, rfl, rfl⟩
        · refine ⟨d :: w, by rw [scanFlag, if_neg hd], ?_, ?_⟩
          · simp [FormatState.next, hd]
          · simp [convChars, FormatState.next, hd]
      obtain ⟨v, hv, hfold, hchars⟩ := hstart
      rw [hv, hfold, hchars]
      rcases width_cases v with ⟨hnil, hstate, hnone⟩ | hend
      · exact .inl ⟨hnil, by rw [hstate]; decide, hnone⟩
      · exact .inr hend

/-- A character outside of the conversions does not decide whether the string is finished. -/
theorem finished_char (hc : c ≠ 37) : Finished (c :: w) ↔ Finished w := by
  unfold Finished
  rw [List.foldl_cons, FormatState.next, if_neg hc]

/-- Nor does it end a conversion. -/
theorem convChars_char (hc : c ≠ 37) : convChars .text (c :: w) = convChars .text w := by
  rw [convChars, FormatState.next, if_neg hc]
  rfl

/-- A percent sign in the text begins a conversion. -/
theorem convChars_percent (w : List UInt8) :
    convChars .text (37 :: w) = convChars .percent w := rfl

end

/-! ## A format that is finished -/

namespace FormatScan

/-- In the string, with what is left of it finished and the arguments for it there. -/
structure Within (mem : List UInt8) (last fuel : Nat) (s : FormatScan) (w : List UInt8) :
    Prop extends At mem last s w where
  rounds : w.length < fuel
  finished : Finished w
  args : ArgsMatch (convChars .text w) s.args
  reads : ∀ a ∈ s.reads, a ≤ last

section
variable {mem w : List UInt8} {last fuel : Nat} {s s' : FormatScan} {c : UInt8}

/-- A conversion whose argument is there does not fail, and the arguments behind it match the
conversions behind it. -/
theorem convert_ok {cs : List UInt8} (f : Field) (h : ArgsMatch (c :: cs) s.args) :
    ∃ s', s.convert c f = .ok s' ∧ ArgsMatch cs s'.args := by
  unfold FormatScan.convert
  rw [ArgsMatch] at h
  split
  · next hs =>
      rw [if_pos hs] at h
      obtain ⟨t, rest, hargs, hrest⟩ := h
      rw [hargs]
      exact ⟨_, rfl, hrest⟩
  · next hs =>
      rw [if_neg hs] at h
      split
      · next hd =>
          rw [if_pos (.inl hd)] at h
          obtain ⟨v, rest, hargs, hrest⟩ := h
          rw [hargs]
          exact ⟨_, rfl, hrest⟩
      · next hd =>
          split
          · next hc =>
              rw [if_pos (.inr hc)] at h
              obtain ⟨v, rest, hargs, hrest⟩ := h
              rw [hargs]
              exact ⟨_, rfl, hrest⟩
          · next hc =>
              rw [if_neg (by simp [hd, hc])] at h
              exact ⟨_, rfl, h⟩

/-- A motion keeps the reads within the string: its own are, and the ones before it were. -/
theorem Within.reads_of_moves (h : Within mem last fuel s w) (hmoves : Moves last s s') :
    ∀ a ∈ s'.reads, a ≤ last := fun a ha => (hmoves.reads a ha).elim (h.reads a) id

/-- The read at the top of the loop is within the string: it is at most that of the NUL. -/
theorem Within.reads_read (h : Within mem last fuel s w) :
    ∀ a ∈ (s.read mem).2.reads, a ≤ last := h.reads_of_moves h.toAt.moves_read

/-- The round of a plain character stays in the string. -/
theorem Within.char (h : Within mem last fuel s (c :: w)) (hc : c ≠ 37) :
    Within mem last fuel ((s.read mem).2.put [c]).advance w where
  toAt := h.toAt.after_char
  rounds := Nat.lt_of_succ_lt h.rounds
  finished := (finished_char hc).1 h.finished
  args := convChars_char hc ▸ h.args
  reads := h.reads_read

/-- A conversion has its last character, and its argument: a finished string does not end within it.
-/
theorem Within.conv (h : Within mem last fuel s (37 :: w)) :
    ∃ s' w', formatRound fuel mem s = .ok (.again s') ∧ Within mem last fuel s' w' ∧
      s.format < s'.format := by
  have hfinished := h.finished
  have hargs := h.args
  rw [convChars_percent] at hargs
  obtain ⟨s₁, hat, hmoves, hround⟩ := h.toAt.formatRound_conv (Nat.lt_of_succ_lt h.rounds)
  rcases scanConv_cases w with ⟨-, hopen, -⟩ | ⟨c, rest, hrest, hstate, hchars⟩
  · exact absurd hfinished hopen
  · rw [hrest] at hat hround
    rw [hchars, ← hmoves.args] at hargs
    obtain ⟨s₂, hconvert, hargs₂⟩ := convert_ok (fieldOf (scanConv w).1) hargs
    obtain ⟨-, hreads⟩ := convert_frame hconvert
    have hrounds := h.rounds
    have hlen := h.toAt.length_le hat hmoves.format
    rw [List.length_cons] at hlen
    refine ⟨s₂.advance, rest, ?_, ⟨hat.after_conv hconvert, by omega,
      hstate.symm.trans hfinished, hargs₂, ?_⟩, hmoves.lt_advance hconvert⟩
    · rw [hround, List.headD_cons, hconvert, ok_bind]
    · change ∀ a ∈ s₂.reads, a ≤ last
      rw [hreads]
      exact h.reads_of_moves hmoves

/-- A round stays in the string, or ends the call. -/
theorem Within.round (h : Within mem last fuel s w) :
    (∃ s' w', formatRound fuel mem s = .ok (.again s') ∧ Within mem last fuel s' w' ∧
        s.format < s'.format) ∨
      ∃ s', formatRound fuel mem s = .ok (.leave s') ∧ ∀ a ∈ s'.reads, a ≤ last := by
  cases w with
  | nil => exact .inr ⟨_, h.toAt.formatRound_nil fuel, h.reads_read⟩
  | cons c w =>
      by_cases hc : c = 37
      · subst hc
        exact .inl h.conv
      · exact .inl ⟨_, w, h.toAt.formatRound_char hc fuel, h.char hc, Nat.lt_succ_self _⟩

end

end FormatScan

/-! ## A format that ends in a conversion -/

namespace FormatScan

section
variable {mem w : List UInt8} {last fuel : Nat} {s s' : FormatScan} {c : UInt8}

/-- Reading a flag forgets no read that was made before. -/
theorem scanFlagAt_reads (mem : List UInt8) (c : UInt8) (s : FormatScan) :
    s.reads ⊆ (s.scanFlagAt mem c).2.reads := by
  unfold FormatScan.scanFlagAt
  dsimp only
  split
  · exact List.subset_cons_self _ _
  · exact List.subset_cons_self _ _

/-- Nor does the loop over a width, by its rounds. -/
theorem loop_widthRound_reads {p p' : BitVec 32 × FormatScan}
    (h : loop .timeout (widthRound mem) fuel p = .ok p') : p.2.reads ⊆ p'.2.reads := by
  refine loop_invariant (fun q => p.2.reads ⊆ q.2.reads) (fun q => p.2.reads ⊆ q.2.reads)
    ?_ ?_ (List.Subset.refl _) h
  · intro q q' hq hround
    unfold widthRound at hround
    dsimp only at hround
    split at hround
    · cases hround
      exact List.subset_cons_of_subset _ hq
    · cases hround
  · intro q q' hq hround
    unfold widthRound at hround
    dsimp only at hround
    split at hround
    · cases hround
    · cases hround
      exact List.subset_cons_of_subset _ hq

/-- Nor does reading a conversion: it is two flags and a width. -/
theorem scanConvAt_reads {r : Field × FormatScan} (h : s.scanConvAt fuel mem = .ok r) :
    s.reads ⊆ r.2.reads := by
  unfold FormatScan.scanConvAt at h
  obtain ⟨⟨width, s₁⟩, hloop, hr⟩ := bind_eq_ok h
  cases hr
  exact List.Subset.trans (scanFlagAt_reads mem 45 s)
    (List.Subset.trans (scanFlagAt_reads mem 48 _) (loop_widthRound_reads hloop))

/-- Whatever is in memory, a round reads the byte under the pointer, and what was read was read. -/
theorem formatRound_reads {r : Round FormatScan} (h : formatRound fuel mem s = .ok r) :
    s.format :: s.reads ⊆ r.state.reads := by
  unfold formatRound at h
  dsimp only at h
  split at h
  · cases h
    exact List.Subset.refl _
  · split at h
    · obtain ⟨⟨f, s₁⟩, hscan, h⟩ := bind_eq_ok h
      obtain ⟨s₂, hconvert, h⟩ := bind_eq_ok h
      cases h
      obtain ⟨-, hreads⟩ := convert_frame hconvert
      have hsub : s.format :: s.reads ⊆ s₁.reads := scanConvAt_reads hscan
      change s.format :: s.reads ⊆ s₂.reads
      rw [hreads]
      exact List.subset_cons_of_subset _ hsub
    · cases h
      exact List.Subset.refl _

/-- Some byte behind the NUL was read, or is the next one, or the string ends in a conversion. -/
def Passes (mem : List UInt8) (last fuel : Nat) (s : FormatScan) : Prop :=
  last + 1 ∈ s.reads ∨ s.format = last + 1 ∨
    ∃ w, At mem last s w ∧ w.length < fuel ∧ ¬ Finished w

/-- The last conversion takes the NUL for its last character, and the pointer goes past it. -/
theorem At.round_open (h : At mem last s w) (hfuel : w.length < fuel) (hopen : ¬ Finished w)
    {r : Round FormatScan} (hround : formatRound fuel mem s = .ok r) :
    ∃ s', r = .again s' ∧ Passes mem last fuel s' := by
  cases w with
  | nil => exact absurd rfl hopen
  | cons c w =>
      have hlen : w.length < fuel := Nat.lt_of_succ_lt hfuel
      by_cases hc : c = 37
      · subst hc
        obtain ⟨s₁, hat, hmoves, hconv⟩ := h.formatRound_conv hlen
        rw [hround] at hconv
        obtain ⟨s₂, hconvert, hr⟩ := bind_eq_ok hconv.symm
        obtain ⟨hformat, -⟩ := convert_frame hconvert
        cases hr
        refine ⟨_, rfl, .inr ?_⟩
        rcases scanConv_cases w with ⟨hrest, -, -⟩ | ⟨d, rest, hrest, hstate, -⟩
        · have hnul := hat.nul
          rw [hrest, List.length_nil] at hnul
          refine .inl ?_
          change s₂.format + 1 = last + 1
          omega
        · rw [hrest] at hat hconvert
          have hle := h.length_le hat hmoves.format
          rw [List.length_cons, List.length_cons] at hle
          exact .inr ⟨rest, hat.after_conv hconvert, by omega,
            fun hend => hopen (hstate.trans hend)⟩
      · rw [h.formatRound_char hc] at hround
        cases hround
        exact ⟨_, rfl, .inr (.inr ⟨w, h.after_char, hlen,
          fun hend => hopen ((finished_char hc).2 hend)⟩)⟩

/-- A round that goes on keeps it: the byte behind the NUL was read, or will be. -/
theorem Passes.again (h : Passes mem last fuel s)
    (hround : formatRound fuel mem s = .ok (.again s')) : Passes mem last fuel s' := by
  have hreads := formatRound_reads hround
  rcases h with hread | hnext | ⟨w, hat, hfuel, hopen⟩
  · exact .inl (hreads (List.mem_cons_of_mem _ hread))
  · exact .inl (hreads (hnext ▸ List.mem_cons_self))
  · obtain ⟨s₁, hr, hs₁⟩ := hat.round_open hfuel hopen hround
    cases hr
    exact hs₁

/-- When the loop ends, the byte right behind the NUL has been read. -/
theorem Passes.leave (h : Passes mem last fuel s)
    (hround : formatRound fuel mem s = .ok (.leave s')) : last + 1 ∈ s'.reads := by
  have hreads := formatRound_reads hround
  rcases h with hread | hnext | ⟨w, hat, hfuel, hopen⟩
  · exact hreads (List.mem_cons_of_mem _ hread)
  · exact hreads (hnext ▸ List.mem_cons_self)
  · obtain ⟨s₁, hr, -⟩ := hat.round_open hfuel hopen hround
    cases hr

end

end FormatScan

/-! ## The whole call -/

section
variable {mem : List UInt8} {p : Nat} {args : List Arg}

/-- A format that does not end in a conversion is read up to its NUL, whatever stands behind it. -/
theorem readsWithin_of_finished (hargs : ArgsMatch (convChars .text (cstr (mem.drop p))) args)
    (hfinished : Finished (cstr (mem.drop p))) : ReadsWithin mem p args := by
  refine ⟨strlen (mem.drop p) + 1, fun fuel hfuel => ?_⟩
  have hrounds : p + strlen (mem.drop p) - p < fuel := by omega
  refine loop_spec
    (fun s => ∃ w, FormatScan.Within mem (p + strlen (mem.drop p)) fuel s w)
    (fun s => p + strlen (mem.drop p) - s.format) _ ?_
    ⟨_, at_start mem p args, hfuel, hfinished, hargs, nofun⟩ hrounds
  rintro s ⟨w, hw⟩
  rcases hw.round with ⟨s', w', hround, hw', hlt⟩ | hleave
  · refine .inl ⟨s', hround, ⟨w', hw'⟩, ?_⟩
    have hnul := hw'.nul
    omega
  · exact .inr hleave

/-- A call that ends has read the byte behind the NUL. -/
theorem mem_reads_of_open {fuel : Nat} {s : FormatScan} (hopen : ¬ Finished (cstr (mem.drop p)))
    (hfuel : strlen (mem.drop p) < fuel) (h : xsprintfAt fuel mem p args = .ok s) :
    p + strlen (mem.drop p) + 1 ∈ s.reads :=
  loop_invariant (FormatScan.Passes mem (p + strlen (mem.drop p)) fuel)
    (fun s => p + strlen (mem.drop p) + 1 ∈ s.reads) (fun _ _ hs => hs.again)
    (fun _ _ hs => hs.leave) (.inr (.inr ⟨_, at_start mem p args, hfuel, hopen⟩)) h

/-- A format that ends in a percent sign, flags or a width is read past its NUL. -/
theorem not_readsWithin_of_open (hopen : ¬ Finished (cstr (mem.drop p))) :
    ¬ ReadsWithin mem p args := by
  rintro ⟨rounds, hall⟩
  obtain ⟨s, hrun, hreads⟩ :=
    hall (max rounds (strlen (mem.drop p) + 1)) (Nat.le_max_left _ _)
  have hread := mem_reads_of_open hopen (Nat.le_max_right _ _) hrun
  have hle := hreads _ hread
  omega

/-- Whatever is in memory behind the format, a call with the arguments that its conversions take
ends, and has read no byte behind the NUL of the format, exactly if the format does not end in a
conversion. -/
theorem xsprintf_reads_iff (mem : List UInt8) (p : Nat) (args : List Arg)
    (hargs : ArgsMatch (convChars .text (cstr (mem.drop p))) args) :
    ReadsWithin mem p args ↔ Finished (cstr (mem.drop p)) := by
  refine ⟨fun hwithin => ?_, readsWithin_of_finished hargs⟩
  by_contra hopen
  exact not_readsWithin_of_open hopen hwithin

/-- `xsprintf(buf, "%d", 5)`: the format ends with the conversion's own character. -/
theorem xsprintf_reads_iff_number : ReadsWithin (str "%d") 0 [.int 5] :=
  (xsprintf_reads_iff (str "%d") 0 [.int 5] ⟨5, [], rfl, trivial⟩).2 (by decide)

/-- `xsprintf(buf, "100%")`, with an `A` behind the format: the percent sign is the last character,
and the `A` is printed. -/
theorem xsprintf_reads_past :
    ¬ ∀ (mem : List UInt8) (p : Nat) (args : List Arg),
      ArgsMatch (convChars .text (cstr (mem.drop p))) args → ReadsWithin mem p args := by
  intro hall
  have hnone : convChars .text (cstr ((str "100%" ++ [0, 65, 0]).drop 0)) = [] := by decide
  have hopen : ¬ Finished (cstr ((str "100%" ++ [0, 65, 0]).drop 0)) := by decide
  have hargs : ArgsMatch (convChars .text (cstr ((str "100%" ++ [0, 65, 0]).drop 0))) [] := by
    rw [hnone]
    trivial
  exact not_readsWithin_of_open hopen (hall _ 0 [] hargs)

end

end OnkenOS
