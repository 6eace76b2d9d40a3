import Mathlib.Data.List.FinRange
import OnkenOS.Apps.TerminalEditing
import OnkenOS.Apps.TerminalWords
import OnkenOS.Kernel.FsStore

/-!
# Tab, then Enter

Tab completes a file name that only one slot matches and puts a space behind it; `exec_command`
takes the spaces before the arguments away, and not the one behind them. So the application is
launched with another name than the file's (`completed_launch_iff`): with the file's only if the
whole name was typed and stands in two slots, where Tab completes nothing.
-/

namespace OnkenOS

open Machine

/-! ## What Tab matches -/

/-- The slots whose names Tab matches. -/
def matchingSlots (files : Files) (p : List UInt8) : List (Fin maxFiles) :=
  (List.finRange maxFiles).filter fun i =>
    (files i).used && strncmp (files i).name p p.length == 0

section
variable {files : Files} {p : List UInt8} {i : Fin maxFiles}

/-- The slot of an index is returned if it is used. -/
theorem vfsGetByIndex_val (i : Fin maxFiles) :
    vfsGetByIndex files (i.val : Int) = if (files i).used then some i else none := by
  have hrange : 0 ≤ (i.val : Int) ∧ (i.val : Int) < maxFiles := ⟨by omega, by omega⟩
  simp only [vfsGetByIndex, dif_pos hrange, Int.toNat_natCast]

/-- The names of the matching slots, in the order of the slots. -/
theorem fileNames_filter (files : Files) (p : List UInt8) :
    (fileNames files).filter (fun name => strncmp name p p.length == 0) =
      (matchingSlots files p).map fun i => (files i).name := by
  have hrange : List.range 64 = (List.finRange maxFiles).map Fin.val :=
    List.map_coe_finRange_eq_range.symm
  unfold fileNames matchingSlots
  rw [hrange, List.filterMap_map]
  induction List.finRange maxFiles with
  | nil => rfl
  | cons i is ih =>
      rw [List.filterMap_cons, List.filter_cons, Function.comp_apply, vfsGetByIndex_val]
      cases hused : (files i).used with
      | false => simpa using ih
      | true =>
          cases hname : strncmp (files i).name p p.length == 0 with
          | false => simpa [hname] using ih
          | true => simpa [hname] using ih

/-- Tab matches the files whose names begin with the word. -/
theorem mem_matchingSlots (hp : 0 ∉ p) :
    i ∈ matchingSlots files p ↔ (files i).used = true ∧ p <+: cstr (files i).name := by
  simp [matchingSlots, strncmp_length_iff hp]

/-- No slot is matched twice. -/
theorem nodup_matchingSlots (files : Files) (p : List UInt8) : (matchingSlots files p).Nodup :=
  (List.nodup_finRange maxFiles).filter _

/-- The list of a word that is one slot's name, or the name of several. -/
theorem matchingSlots_cases (hp : 0 ∉ p) {F : List UInt8}
    (hstored : ∃ i, (files i).used = true ∧ cstr (files i).name = F) (hpre : p <+: F)
    (hother : ∀ i, (files i).used = true → p <+: cstr (files i).name → cstr (files i).name = F) :
    (∃ i, matchingSlots files p = [i] ∧ cstr (files i).name = F ∧
        ∀ j, (files j).used = true → cstr (files j).name = F → j = i) ∨
      ∃ i j is, matchingSlots files p = i :: j :: is ∧ i ≠ j ∧
        ((files i).used = true ∧ cstr (files i).name = F) ∧
        (files j).used = true ∧ cstr (files j).name = F := by
  have hmem : ∀ i, i ∈ matchingSlots files p ↔ (files i).used = true ∧ cstr (files i).name = F := by
    intro i
    rw [mem_matchingSlots hp]
    exact ⟨fun h => ⟨h.1, hother i h.1 h.2⟩, fun h => ⟨h.1, h.2 ▸ hpre⟩⟩
  have hnodup := nodup_matchingSlots files p
  obtain ⟨k, hk⟩ := hstored
  have hkmem := (hmem k).2 hk
  generalize matchingSlots files p = slots at hmem hnodup hkmem ⊢
  rcases slots with _ | ⟨i, _ | ⟨j, is⟩⟩
  · cases hkmem
  · refine .inl ⟨i, rfl, ((hmem i).1 (.head _)).2, fun j hj hname => ?_⟩
    exact List.mem_singleton.1 ((hmem j).2 ⟨hj, hname⟩)
  · refine .inr ⟨i, j, is, rfl, ?_, (hmem i).1 (.head _), (hmem j).1 (.tail _ (.head _))⟩
    rintro rfl
    exact (List.nodup_cons.1 hnodup).1 (.head _)

end

/-! ## The keys -/

section
variable (env : Env) (files : Files) {t : Terminal} {front word : List UInt8}

/-- The current word is what stands behind the last space. -/
theorem currentWord_append (hword : 32 ∉ word) : currentWord (front ++ 32 :: word) = word := by
  unfold currentWord
  induction word using List.reverseRecOn with
  | nil => exact List.rtakeWhile_concat_neg _ _ _ (by simp)
  | append_singleton word c ih =>
      have hc : c ≠ 32 := by
        rintro rfl
        exact hword (by simp)
      have hlist : front ++ 32 :: (word ++ [c]) = (front ++ 32 :: word) ++ [c] := by simp
      rw [hlist, List.rtakeWhile_concat_pos _ _ _ (by simpa using hc),
        ih fun hmem => hword (by simp [hmem])]

/-- Behind a space, the candidates are the names of the matching slots. -/
theorem candidates_slots (hzero : 0 ∉ word) (hword : 32 ∉ word) :
    candidates env files (front ++ 32 :: word) =
      (matchingSlots files word).map fun i => cstr (files i).name := by
  have hspace : 32 ∈ front ++ 32 :: word := by simp
  rw [candidates, if_pos hspace, currentWord_append hword, ← map_cstr_filter hzero,
    fileNames_filter, List.map_map]
  rfl

/-- A line with room for the name and the space gets both. -/
theorem completedLine_of_room (hword : 32 ∉ word) {F : List UInt8} (hpre : word <+: F)
    (hroom : front.length + 1 + F.length < 126) :
    completedLine (front ++ 32 :: word) F = front ++ 32 :: (F ++ [32]) := by
  obtain ⟨q, rfl⟩ := hpre
  rw [List.length_append] at hroom
  have hfits : q.take (126 - (front ++ 32 :: word).length) = q := by
    refine List.take_of_length_le ?_
    rw [List.length_append, List.length_cons]
    omega
  have hshort : (front ++ 32 :: word ++ q).length < 127 := by
    simp only [List.length_append, List.length_cons]
    omega
  unfold completedLine
  rw [currentWord_append hword, List.drop_left, hfits]
  dsimp only
  rw [if_pos hshort]
  simp

/-- Tab completes the name of the only matching slot, and adds a space. -/
theorem handleTab_slot {s : Shell} (h : s.term.EditsLine (front ++ 32 :: word))
    (hword : 32 ∉ word) {i : Fin maxFiles} (hslot : matchingSlots s.files word = [i])
    {F : List UInt8} (hname : cstr (s.files i).name = F) (hpre : word <+: F)
    (hroom : front.length + 1 + F.length < 126) :
    (handleTab env s).term.EditsLine (front ++ 32 :: (F ++ [32])) := by
  have hzero : 0 ∉ word := fun hmem => h.zero_not_mem (by simp [hmem])
  have hone : candidates env s.files (front ++ 32 :: word) = [F] := by
    rw [candidates_slots env s.files hzero hword, hslot, List.map_singleton, hname]
  rw [← completedLine_of_room hword hpre hroom]
  exact handleTab_single env h hone

/-- Tab leaves the line alone if several slots match, even if they have one name: it counts matches,
not names. -/
theorem handleTab_slots {s : Shell} (h : s.term.EditsLine (front ++ 32 :: word))
    (hword : 32 ∉ word) {i j : Fin maxFiles} {is : List (Fin maxFiles)}
    (hslots : matchingSlots s.files word = i :: j :: is) :
    (handleTab env s).term.EditsLine (front ++ 32 :: word) := by
  have hzero : 0 ∉ word := fun hmem => h.zero_not_mem (by simp [hmem])
  refine handleTab_several env h ?_
  rw [candidates_slots env s.files hzero hword, hslots]
  simp

/-! ## Enter -/

/-- The launches among what the code does. -/
def launchCalls (es : List Effect) : List Launch :=
  es.filterMap fun
    | .launch app args => some ⟨app, args⟩
    | _ => none

variable {app : AppEntry} {args F : List UInt8}

/-- The names of applications are printable words. -/
theorem systemApps_printable :
    ∀ a ∈ systemApps, a.name ≠ [] ∧ ∀ c ∈ a.name, 32 < c ∧ c < 127 := by
  decide +kernel

/-- No two applications have one name. -/
theorem systemApps_name_inj :
    ∀ a ∈ systemApps, ∀ b ∈ systemApps, cstr a.name = cstr b.name → a = b := by decide

/-- The name of an application other than the terminal launches it: no two registered names are
equal, so the search finds that one. -/
theorem appToLaunch_name {registry : Registry} (happ : app ∈ registry.entries)
    (hterm : app.name ≠ str "terminal") : appToLaunch registry app.name = some app := by
  have hzero : ∀ a ∈ systemApps, a.name = str "terminal" ∨ cstr a.name ≠ cstr (str "terminal") := by
    decide
  have hmem := registry.mem_systemApps app happ
  have hcmp : strcmp app.name (str "terminal") ≠ 0 := fun h =>
    (hzero app hmem).elim hterm fun hne => hne ((strcmp_eq_zero_iff _ _).1 h)
  have hfind : appFind registry app.name = some app := by
    unfold appFind
    cases hf : registry.entries.find? fun a => strcmp a.name app.name == 0 with
    | none =>
        have hnot := List.find?_eq_none.1 hf app happ
        exact absurd (beq_iff_eq.2 ((strcmp_eq_zero_iff app.name app.name).2 rfl)) hnot
    | some a =>
        have hname := List.find?_some hf
        rw [beq_iff_eq, strcmp_eq_zero_iff] at hname
        exact congrArg some (systemApps_name_inj a (appFind_mem hf) app hmem hname)
  rw [appToLaunch, hfind]
  exact Option.filter_some_pos (decide_eq_true hcmp)

/-- Enter on an application's name and arguments launches it once, with the arguments as they stand
on the line. -/
theorem enter_launches (h : t.EditsLine (app.name ++ 32 :: args))
    (happ : app ∈ env.registry.entries) (hterm : app.name ≠ str "terminal") :
    launchCalls (handleKey t ⟨env, files, true, 10⟩).effects =
      [⟨app, launchArgs (some args)⟩] := by
  obtain ⟨hne, hchars⟩ := systemApps_printable app (env.registry.mem_systemApps app happ)
  have hword : IsWord app.name := ⟨hne, fun hmem => absurd (hchars 32 hmem).1 (by decide)⟩
  have htok : strtok (str " ") (some t.cmdBuf) = (some app.name, some args) := by
    rw [← strtok_cstr, h.cstr_buf]
    exact strtok_word (some args) spaces_nil hword h.zero_not_mem
  have hlen : strlen t.cmdBuf ≤ 127 := by
    rw [h.strlen_buf, h.length]
    exact h.short
  have hkey : (handleKey t ⟨env, files, true, 10⟩).effects =
      (execCommand env t.cmdBuf (echoLine ⟨t, files, false, []⟩)).effects := by
    unfold handleKey terminalHandleKey handleEnter
    simp only [h.terminate]
    rfl
  rw [hkey, execCommand_app env hlen htok (appToLaunch_name happ hterm)]
  unfold launchApp
  cases launchArgs (some args) <;>
    simp [launchCalls, echoLine, Shell.printf, Shell.sprintf, Shell.print]

/-- The arguments of a line that ends in a word, or in a word and a space. -/
theorem launchArgs_word {pad : List UInt8} (hword : 32 ∉ word) (hpad : Spaces pad)
    (hzero : 0 ∉ word ++ pad) :
    launchArgs (some (word ++ pad)) = if word = [] then none else some (word ++ pad) := by
  cases word with
  | nil =>
      rw [List.nil_append] at hzero ⊢
      rw [if_pos rfl]
      cases pad with
      | nil => rfl
      | cons c pad =>
          have hskip : skipSpaces (c :: pad) = [] :=
            List.dropWhile_eq_nil_iff.2 fun d hd => decide_eq_true (hpad d hd)
          rw [launchArgs, strtok_rest hzero (List.cons_ne_nil c pad), Option.map_some, hskip]
          rfl
  | cons c word =>
      have hc : c ≠ 32 := by
        rintro rfl
        exact hword (.head _)
      have hskip : skipSpaces (c :: word ++ pad) = c :: word ++ pad := by
        simp [skipSpaces, hc]
      have hlen : strlen (c :: word ++ pad) ≠ 0 := by
        rw [strlen, cstr_of_zero_not_mem hzero]
        simp
      rw [if_neg (List.cons_ne_nil c word), launchArgs, strtok_rest hzero (by simp),
        Option.map_some, hskip]
      exact Option.filter_some_pos (decide_eq_true hlen)

/-- The keys up to Tab leave the line with the completed name and a space if one slot matches,
and as it was typed if several do. -/
theorem run_tab (ht : t.EditsLine []) (hfront : ∀ c ∈ front, 32 ≤ c ∧ c < 127)
    (hchars : ∀ c ∈ word, 32 ≤ c ∧ c < 127) (hroom : front.length + 1 + word.length ≤ 127) :
    ∃ t' : Terminal, t'.EditsLine (front ++ 32 :: word) ∧
      run keyStep t ((front ++ 32 :: (word ++ [9])).map fun c => ⟨env, files, true, c⟩) =
        (handleTab env ⟨t', files, false, []⟩).term := by
  have hkeys : ∀ c ∈ front ++ 32 :: word, 32 ≤ c ∧ c < 127 := by
    intro c hc
    rcases List.mem_append.1 hc with hc | hc
    · exact hfront c hc
    · rcases List.mem_cons.1 hc with rfl | hc
      · decide
      · exact hchars c hc
  have htyped := run_typed env files ht hkeys (by
    simp only [List.length_append, List.length_cons, List.length_nil]
    omega)
  refine ⟨_, htyped.1, ?_⟩
  have htab : front ++ 32 :: (word ++ [9]) = (front ++ 32 :: word) ++ [9] := by simp
  rw [htab, List.map_append, run_append]
  rfl

end

/-! ## Tab and Enter -/

/-- On an empty line: an application other than the terminal, and a part of a stored file's name
that no other file's name starts with. -/
structure Completable (env : Env) (files : Files) (t : Terminal) (app : AppEntry)
    (F p : List UInt8) : Prop where
  empty : t.EditsLine []
  registered : app ∈ env.registry.entries
  not_terminal : app.name ≠ str "terminal"
  stored : ∃ i, (files i).used = true ∧ cstr (files i).name = F
  no_space : 32 ∉ F
  start : p <+: F
  typed : ∀ c ∈ p, 32 ≤ c ∧ c < 127
  other : ∀ i, (files i).used = true → p <+: cstr (files i).name → cstr (files i).name = F
  short : app.name.length + 1 + F.length < 126

/-- The launches by the application's name, a space, the part of the file's name, Tab and Enter. -/
def completedLaunches (env : Env) (files : Files) (t : Terminal) (app : AppEntry)
    (p : List UInt8) : List Launch :=
  launchCalls (handleKey (run keyStep t ((app.name ++ 32 :: (p ++ [9])).map fun c =>
    ⟨env, files, true, c⟩)) ⟨env, files, true, 10⟩).effects

section
variable {env : Env} {files : Files} {t : Terminal} {app : AppEntry} {F p : List UInt8}

/-- The file's name is a string, without a NUL. -/
theorem Completable.zero_not_mem (h : Completable env files t app F p) : 0 ∉ F := by
  obtain ⟨i, -, hname⟩ := h.stored
  rw [← hname]
  exact zero_not_mem_cstr _

/-- The part that is typed is one word. -/
theorem Completable.space_not_mem (h : Completable env files t app F p) : 32 ∉ p :=
  fun hmem => h.no_space (h.start.subset hmem)

/-- When Tab is pressed the line is the application's name, a space and the part: the keys before it
were typed. -/
theorem Completable.run_tab (h : Completable env files t app F p) :
    ∃ t' : Terminal, t'.EditsLine (app.name ++ 32 :: p) ∧
      run keyStep t ((app.name ++ 32 :: (p ++ [9])).map fun c => ⟨env, files, true, c⟩) =
        (handleTab env ⟨t', files, false, []⟩).term := by
  have hname : ∀ c ∈ app.name, 32 ≤ c ∧ c < 127 := by
    intro c hc
    have hprint := systemApps_printable app (env.registry.mem_systemApps app h.registered)
    exact ⟨UInt8.le_of_lt (hprint.2 c hc).1, (hprint.2 c hc).2⟩
  have hlen := h.start.length_le
  have hroom := h.short
  exact OnkenOS.run_tab env files h.empty hname h.typed (by omega)

/-- One slot: the application gets the name and a space. -/
theorem Completable.launches_single (h : Completable env files t app F p) {i : Fin maxFiles}
    (hslot : matchingSlots files p = [i]) (hname : cstr (files i).name = F) :
    completedLaunches env files t app p =
      [⟨app, if F = [] then none else some (F ++ [32])⟩] := by
  obtain ⟨t', hline, hrun⟩ := h.run_tab
  have htab := handleTab_slot env (s := ⟨t', files, false, []⟩) hline h.space_not_mem
    hslot hname h.start h.short
  have hzero : 0 ∉ F ++ [32] := by simp [h.zero_not_mem]
  rw [completedLaunches, hrun, enter_launches env files htab h.registered h.not_terminal,
    launchArgs_word h.no_space (by simp [Spaces]) hzero]

/-- Several slots match: Tab completes nothing, and the application gets the part that was typed, or
nothing at all. -/
theorem Completable.launches_several (h : Completable env files t app F p) {i j : Fin maxFiles}
    {is : List (Fin maxFiles)} (hslots : matchingSlots files p = i :: j :: is) :
    completedLaunches env files t app p = [⟨app, if p = [] then none else some p⟩] := by
  obtain ⟨t', hline, hrun⟩ := h.run_tab
  have htab := handleTab_slots env (s := ⟨t', files, false, []⟩) hline h.space_not_mem
    hslots
  have hzero : 0 ∉ p ++ [] := by
    rw [List.append_nil]
    exact fun hmem => h.zero_not_mem (h.start.subset hmem)
  have hargs := launchArgs_word h.space_not_mem spaces_nil hzero
  rw [List.append_nil] at hargs
  rw [completedLaunches, hrun, enter_launches env files htab h.registered h.not_terminal, hargs]

/-- Tab and Enter launch the application with the file's name exactly if all of the name was
typed, and two slots have it. -/
theorem completed_launch_iff (h : Completable env files t app F p) :
    completedLaunches env files t app p = [⟨app, some F⟩] ↔
      p = F ∧ F ≠ [] ∧ ∃ i j, i ≠ j ∧ ((files i).used = true ∧ cstr (files i).name = F) ∧
        (files j).used = true ∧ cstr (files j).name = F := by
  have hzero : 0 ∉ p := fun hmem => h.zero_not_mem (h.start.subset hmem)
  rcases matchingSlots_cases hzero h.stored h.start h.other with
    ⟨i, hslot, hname, hunique⟩ | ⟨i, j, is, hslots, hne, hi, hj⟩
  · rw [h.launches_single hslot hname]
    refine iff_of_false ?_ ?_
    · intro heq
      split at heq <;> simp at heq
    · rintro ⟨-, -, k, l, hkl, hk, hl⟩
      exact hkl ((hunique k hk.1 hk.2).trans (hunique l hl.1 hl.2).symm)
  · rw [h.launches_several hslots]
    have htwo : ∃ i j, i ≠ j ∧ ((files i).used = true ∧ cstr (files i).name = F) ∧
        (files j).used = true ∧ cstr (files j).name = F := ⟨i, j, hne, hi, hj⟩
    rw [and_iff_left htwo]
    split
    · next hnil =>
        subst hnil
        simp
    · next hcons =>
        simp only [List.cons.injEq, Launch.mk.injEq, Option.some.injEq, true_and, and_true]
        exact ⟨fun heq => ⟨heq, heq ▸ hcons⟩, And.left⟩

/-- A whole name of 31 bytes is completable, on the empty line of a fresh terminal. -/
theorem completable_long {i : Fin maxFiles}
    (hopen : vfsOpen files (List.replicate 31 97) = some i) :
    Completable Env.zero files Terminal.static ⟨str "yano", str "yano", str "Text Editor"⟩
      (List.replicate 31 97) (List.replicate 31 97) where
  empty := ⟨by decide, rfl, by decide, rfl⟩
  registered := by decide
  not_terminal := by decide
  stored := ⟨i, (fileView_eq_some.1 (findFile_eq_some hopen)).1,
    congrArg Prod.fst (fileView_eq_some.1 (findFile_eq_some hopen)).2⟩
  no_space := by decide
  start := List.prefix_rfl
  typed := by decide +kernel
  other j _ hpre := (hpre.eq_of_length_le (files j).strlen_name_le).symm
  short := by decide

end

/-- An empty line, a RAM disk with one file, and the keys of its name, Tab and Enter. -/
theorem completed_launch_iff_one :
    ¬ completedLaunches Env.zero (vfsCreate Files.zero (List.replicate 31 97)).1 Terminal.static
      ⟨str "yano", str "yano", str "Text Editor"⟩ (List.replicate 31 97) =
        [⟨⟨str "yano", str "yano", str "Text Editor"⟩, some (List.replicate 31 97)⟩] := by
  have hunique : NamesUnique Files.zero := fun _ _ hi => (by cases hi)
  have hnames := (namesUnique_create_iff hunique (List.replicate 31 97)).2 (.inl (by decide))
  have hstorable : Storable Files.zero (List.replicate 31 97) := ⟨by decide, 0, .inr rfl⟩
  obtain ⟨i, hopen, -⟩ := vfsCreate_storable hstorable
  intro h
  obtain ⟨-, -, j, k, hne, ⟨hj, hjname⟩, hk, hkname⟩ :=
    (completed_launch_iff (completable_long hopen)).1 h
  exact hne (hnames j k hj hk (hjname.trans hkname.symm))

/-- A new file with a name of 31 bytes, completed: the application gets another name. -/
theorem completed_name_differs :
    ¬ ∀ (logoPng : List UInt8) (calls : List VfsChange) (env : Env) (t : Terminal)
      (app : AppEntry) (F p : List UInt8),
      Completable env (run vfsChange (vfsInit logoPng) calls) t app F p →
        completedLaunches env (run vfsChange (vfsInit logoPng) calls) t app p =
          [⟨app, some F⟩] := by
  intro h
  have hrun := h [] [.create (List.replicate 31 97)]
  have hinit := namesUnique_vfsInit []
  have hused := usedBelow_vfsInit []
  generalize vfsInit [] = files at hrun hinit hused
  have hnames := (namesUnique_create_iff hinit (List.replicate 31 97)).2 (.inl (by decide))
  have hfree : (files 7).used = false := hused.free (by decide)
  have hstorable : Storable files (List.replicate 31 97) := ⟨by decide, 7, .inr hfree⟩
  obtain ⟨i, hopen, -⟩ := vfsCreate_storable hstorable
  have hcase := completable_long hopen
  have hall := hrun Env.zero Terminal.static _ _ _ hcase
  rcases matchingSlots_cases (by decide) hcase.stored hcase.start hcase.other with
    ⟨j, hslot, hname, -⟩ | ⟨j, k, -, -, hne, ⟨hj, hjname⟩, hk, hkname⟩
  · have hsingle := hcase.launches_single hslot hname
    exact absurd (hsingle.symm.trans hall) (by decide)
  · exact hne (hnames j k hj hk (hjname.trans hkname.symm))

end OnkenOS
