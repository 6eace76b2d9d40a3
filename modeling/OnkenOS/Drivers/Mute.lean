import OnkenOS.Drivers.SoundQueue

/-!
# Mute

The mute button of the sound player calls `sound_stop`, which turns the speaker off and clears
`sound_is_playing`, and leaves the queue as it is. The next tick finds nothing playing and takes
the next note: the speaker stays quiet exactly when the queue was empty (`mute_stays_iff`).
-/

namespace OnkenOS

open Machine

/-- After `sound_stop`, no tick starts a note before the next call of `sound_enqueue`, and the
notes started from then on are notes enqueued after it. -/
def SoundSystem.MuteStays (s : SoundSystem) : Prop :=
  ∀ (port61 : BitVec 8) (es : List SoundEvent),
    let s' := run soundStep (soundStep s (.stop port61)) es
    ((∀ note, SoundEvent.enqueue note ∉ es) → s'.taken = s.taken) ∧
      ∃ started later, s'.taken = s.taken ++ started ∧ s'.accepted = s.accepted ++ later ∧
        started <+: later

section
variable {s : SoundSystem}

/-! ## A mute that stays -/

/-- An event only adds to the notes taken and to the notes accepted. -/
theorem soundStep_log (s : SoundSystem) (e : SoundEvent) :
    s.taken <+: (soundStep s e).taken ∧ s.accepted <+: (soundStep s e).accepted := by
  cases e with
  | enqueue note =>
      unfold soundStep
      dsimp only
      split <;> exact ⟨List.prefix_rfl, List.prefix_rfl⟩
  | step =>
      change s.taken <+: (enqueueStep s).taken ∧ s.accepted <+: (enqueueStep s).accepted
      unfold enqueueStep
      cases s.call with
      | computed note nextTail =>
          dsimp only
          split
          · exact ⟨List.prefix_rfl, List.prefix_append _ _⟩
          · exact ⟨List.prefix_rfl, List.prefix_rfl⟩
      | idle | entered note | compared note nextTail | freqWritten note nextTail
      | durationWritten note nextTail => exact ⟨List.prefix_rfl, List.prefix_rfl⟩
  | irq0 port61 => exact ⟨List.prefix_append _ _, List.prefix_rfl⟩
  | stop port61 => exact ⟨List.prefix_rfl, List.prefix_rfl⟩

/-- What was taken and what was accepted only grow. -/
theorem run_log (s : SoundSystem) (es : List SoundEvent) :
    s.taken <+: (run soundStep s es).taken ∧ s.accepted <+: (run soundStep s es).accepted := by
  induction es generalizing s with
  | nil => exact ⟨List.prefix_rfl, List.prefix_rfl⟩
  | cons e es ih =>
      obtain ⟨htaken, haccepted⟩ := soundStep_log s e
      obtain ⟨htaken', haccepted'⟩ := ih (soundStep s e)
      exact ⟨htaken.trans htaken', haccepted.trans haccepted'⟩

/-- Nothing is in the queue, and nothing on its way there. -/
def SoundSystem.Quiet (s : SoundSystem) : Prop :=
  s.sound.soundQHead = s.sound.soundQTail ∧ s.call = .idle

/-- Without a call of `sound_enqueue` a quiet system stays quiet, and takes no note. -/
theorem quiet_step (h : s.Quiet) {e : SoundEvent} (he : ∀ note, e ≠ .enqueue note) :
    (soundStep s e).Quiet ∧ (soundStep s e).taken = s.taken := by
  obtain ⟨hempty, hidle⟩ := h
  cases e with
  | enqueue note => exact absurd rfl (he note)
  | step =>
      have hstep : soundStep s .step = s := by simp [soundStep, enqueueStep, hidle]
      rw [hstep]
      exact ⟨⟨hempty, hidle⟩, rfl⟩
  | irq0 port61 =>
      rcases soundTick_cases s.sound (uptimeMs (s.kernelTicks + 1)) port61 with
        ⟨-, hnone, hsame⟩ | ⟨-, hne, -, -⟩
      · refine ⟨⟨hsame.2.1.trans (hempty.trans hsame.2.2.symm), hidle⟩, ?_⟩
        change s.taken ++ _ = s.taken
        rw [hnone]
        exact List.append_nil _
      · exact absurd hempty hne
  | stop port61 => exact ⟨⟨hempty, hidle⟩, rfl⟩

/-- An idle driver with an empty queue stays so without a new note, and takes none. -/
theorem quiet_run {es : List SoundEvent} (h : s.Quiet)
    (hes : ∀ note, SoundEvent.enqueue note ∉ es) : (run soundStep s es).taken = s.taken := by
  have hguard : ∀ e ∈ es, ∀ note, e ≠ .enqueue note := by
    rintro e he note rfl
    exact hes note he
  have hstep : ∀ (s' : SoundSystem) (e : SoundEvent), s'.Quiet ∧ s'.taken = s.taken →
      (∀ note, e ≠ .enqueue note) → (soundStep s' e).Quiet ∧ (soundStep s' e).taken = s.taken := by
    rintro s' e ⟨hquiet, htaken⟩ he
    obtain ⟨hquiet', htaken'⟩ := quiet_step hquiet he
    exact ⟨hquiet', htaken'.trans htaken⟩
  have hrun := run_invariant_of_ok _ hstep es ⟨h, rfl⟩ (RunOk_iff_forall_mem.2 hguard)
  exact hrun.2

/-- Everything accepted was taken: what is taken later was accepted later, as the queue keeps the
order. -/
theorem quiet_later (hinv : s.Inv) (h : s.Quiet) (es : List SoundEvent) :
    ∃ started later, (run soundStep s es).taken = s.taken ++ started ∧
      (run soundStep s es).accepted = s.accepted ++ later ∧ started <+: later := by
  obtain ⟨⟨started, hstarted⟩, ⟨later, hlater⟩⟩ := run_log s es
  have hnow : s.taken = s.accepted := by
    have hfifo := hinv.fifo
    rw [Sound.pending, h.1, Ring.pending_self _ hinv.tail_lt, h.2] at hfifo
    simpa [EnqueueCall.inFlight] using hfifo
  have hstep : ∀ (s : SoundSystem) (e : SoundEvent), s.Inv → (soundStep s e).Inv :=
    fun _ e hs => soundStep_inv hs e
  have hinv' := run_invariant hstep es hinv
  refine ⟨started, later, hstarted.symm, hlater.symm, ?_⟩
  have hfifo := hinv'.fifo
  rw [← hstarted, ← hlater, hnow, List.append_assoc, List.append_assoc] at hfifo
  exact ⟨_, List.append_cancel_left hfifo⟩

/-! ## A mute that does not stay -/

/-- With nothing playing, the interrupt takes a note from a queue that is not empty. -/
theorem irq0Handler_takes (hplay : s.sound.soundIsPlaying = false)
    (hne : s.sound.soundQHead ≠ s.sound.soundQTail) (port61 : BitVec 8) :
    (irq0Handler s port61).taken ≠ s.taken := by
  rcases soundTick_cases s.sound (uptimeMs (s.kernelTicks + 1)) port61 with
    ⟨hstays, -, -⟩ | ⟨-, -, htake, -⟩
  · rcases hstays with htrue | hempty
    · exact absurd (hplay.symm.trans htrue) Bool.false_ne_true
    · exact absurd hempty hne
  · have htaken : (irq0Handler s port61).taken =
        s.taken ++ [s.sound.soundQueue s.sound.soundQHead] :=
      congrArg (fun note : Option Note => s.taken ++ note.toList) htake
    simp [htaken]

/-- A call that is under way on an empty queue fills a slot within five steps. -/
theorem enqueueStep_publishes (hinv : s.Inv)
    (hempty : s.sound.soundQHead = s.sound.soundQTail) (hcall : s.call ≠ .idle) :
    let s' := run soundStep s (List.replicate 5 .step)
    s'.sound.soundQHead ≠ s'.sound.soundQTail ∧
      s'.sound.soundIsPlaying = s.sound.soundIsPlaying ∧ s'.taken = s.taken := by
  have hok := hinv.call
  have htail : s.sound.soundQTail < 16 := hinv.tail_lt
  have hnext : (s.sound.soundQTail + 1) % 16 ≠ s.sound.soundQTail := by omega
  cases hc : s.call with
  | idle => exact absurd hc hcall
  | entered note =>
      simp [List.replicate, soundStep, enqueueStep, hc, hempty, hnext, hnext.symm,
        Sound.writeFreq, Sound.writeDuration]
  | computed note nextTail =>
      rw [hc] at hok
      obtain rfl : nextTail = (s.sound.soundQTail + 1) % 16 := hok
      simp [List.replicate, soundStep, enqueueStep, hc, hempty, hnext, hnext.symm,
        Sound.writeFreq, Sound.writeDuration]
  | compared note nextTail =>
      rw [hc] at hok
      obtain rfl : nextTail = (s.sound.soundQTail + 1) % 16 := hok.1
      simp [List.replicate, soundStep, enqueueStep, hc, hempty, hnext.symm, Sound.writeFreq,
        Sound.writeDuration]
  | freqWritten note nextTail =>
      rw [hc] at hok
      obtain rfl : nextTail = (s.sound.soundQTail + 1) % 16 := hok.1.1
      simp [List.replicate, soundStep, enqueueStep, hc, hempty, hnext.symm, Sound.writeDuration]
  | durationWritten note nextTail =>
      rw [hc] at hok
      obtain rfl : nextTail = (s.sound.soundQTail + 1) % 16 := hok.1.1
      simp [List.replicate, soundStep, enqueueStep, hc, hempty, hnext.symm]

/-- The mute stays exactly when the queue is empty, and no call of `sound_enqueue` is under way:
`sound_stop` ends the note that sounds and does not touch the queue, from which the next tick takes
another one. -/
theorem mute_stays_iff (h : Reachable soundStep .start s) :
    s.MuteStays ↔ s.sound.soundQHead = s.sound.soundQTail ∧ s.call = .idle := by
  have hinv : (soundStep s (.stop 0)).Inv := soundStep_inv (SoundSystem.reachable_inv h) _
  refine ⟨fun hmute => ?_, fun hquiet port61 es => ?_⟩
  · have hempty : s.sound.soundQHead = s.sound.soundQTail := by
      by_contra hne
      refine irq0Handler_takes (s := soundStep s (.stop 0)) rfl hne 0 ?_
      exact (hmute 0 [.irq0 0]).1 (by simp)
    refine ⟨hempty, ?_⟩
    by_contra hcall
    obtain ⟨hne, hplay, htaken⟩ := enqueueStep_publishes hinv hempty hcall
    refine irq0Handler_takes (hplay.trans rfl) hne 0 ?_
    rw [htaken]
    have hquiet := (hmute 0 (List.replicate 5 .step ++ [.irq0 0])).1 (by simp)
    rwa [run_append] at hquiet
  · have hmuted : (soundStep s (.stop port61)).Quiet := hquiet
    exact ⟨quiet_run hmuted,
      quiet_later (soundStep_inv (SoundSystem.reachable_inv h) _) hmuted es⟩

/-- A tune of two notes is enqueued and its first note starts; the mute leads over to the second
one. -/
theorem mute_leads_over :
    ¬ ∀ s, Reachable soundStep .start s → s.MuteStays := by
  intro hmute
  have hquiet := (hmute _ ⟨.enqueue ⟨261, 150⟩ :: List.replicate 5 .step ++
    .enqueue ⟨329, 150⟩ :: List.replicate 5 .step ++ [.irq0 0], rfl⟩ 0 [.irq0 0]).1 (by simp)
  revert hquiet
  decide +kernel

/-- One note is enqueued, and a tick starts it. -/
def oneNotePlaying : SoundSystem :=
  run soundStep .start (.enqueue ⟨261, 150⟩ :: List.replicate 5 .step ++ [.irq0 0])

/-- The mute of the only note while it sounds: it was the last one in the queue, so nothing
follows. -/
theorem mute_stays_iff_playing :
    oneNotePlaying.sound.soundIsPlaying = true ∧ oneNotePlaying.taken = [⟨261, 150⟩] ∧
      oneNotePlaying.MuteStays := by
  have hempty : oneNotePlaying.sound.soundQHead = oneNotePlaying.sound.soundQTail := by
    decide +kernel
  have hidle : oneNotePlaying.call = .idle := by
    simp [oneNotePlaying, SoundSystem.start, Sound.static, List.replicate, soundStep, enqueueStep,
      irq0Handler]
  exact ⟨by decide +kernel, by decide +kernel,
    (mute_stays_iff ⟨_, rfl⟩).2 ⟨hempty, hidle⟩⟩

end

end OnkenOS
