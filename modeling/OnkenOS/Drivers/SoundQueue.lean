import OnkenOS.Drivers.Sound

/-!
# The sound queue is a lossless queue

The queue is a ring (`Ring`) that the main loop and the timer interrupt share without a lock. What
holds between any two steps of `sound_enqueue` is `SoundSystem.Inv`: the notes taken, the pending
ones and the one a call has accepted and not published yet are, in this order, the notes accepted.
Every event keeps it, so it holds in every interleaving (`sound_queue_fifo`).
-/

namespace OnkenOS

open Machine

/-- The notes in the queue. -/
def Sound.pending (s : Sound) : List Note :=
  Ring.pending soundQueueSize s.soundQueue s.soundQHead s.soundQTail

/-- The note that the call has accepted and not published yet. -/
def EnqueueCall.inFlight : EnqueueCall → List Note
  | .compared note _ | .freqWritten note _ | .durationWritten note _ => [note]
  | .idle | .entered _ | .computed .. => []

/-- The slot whose frequency the call has written, and not its duration. -/
def SoundSystem.partialSlot (s : SoundSystem) : Option Nat :=
  match s.call with
  | .freqWritten .. => some s.sound.soundQTail
  | _ => none

/-- What a call knows of the driver where it stands. -/
def EnqueueCall.Ok (s : Sound) : EnqueueCall → Prop
  | .idle | .entered _ => True
  | .computed _ nextTail => nextTail = Ring.next soundQueueSize s.soundQTail
  | .compared _ nextTail =>
      nextTail = Ring.next soundQueueSize s.soundQTail ∧ nextTail ≠ s.soundQHead
  | .freqWritten note nextTail =>
      (nextTail = Ring.next soundQueueSize s.soundQTail ∧ nextTail ≠ s.soundQHead) ∧
        (s.soundQueue s.soundQTail).freq = note.freq
  | .durationWritten note nextTail =>
      (nextTail = Ring.next soundQueueSize s.soundQTail ∧ nextTail ≠ s.soundQHead) ∧
        s.soundQueue s.soundQTail = note

/-- What holds between any two steps. -/
structure SoundSystem.Inv (s : SoundSystem) : Prop where
  head_lt : s.sound.soundQHead < soundQueueSize
  tail_lt : s.sound.soundQTail < soundQueueSize
  call : s.call.Ok s.sound
  fifo : s.taken ++ s.sound.pending ++ s.call.inFlight = s.accepted

/-- It holds before the first call: the queue is empty, and no call is under way. -/
theorem SoundSystem.start_inv : SoundSystem.start.Inv :=
  ⟨Nat.succ_pos 15, Nat.succ_pos 15, trivial, rfl⟩

/-! ## The interrupt -/

/-- The two drivers have the same queue. -/
def Sound.SameQueue (s s' : Sound) : Prop :=
  s'.soundQueue = s.soundQueue ∧ s'.soundQHead = s.soundQHead ∧ s'.soundQTail = s.soundQTail

section
variable {s s' : Sound}

/-- The same queue holds the same notes. -/
theorem Sound.SameQueue.pending_eq (h : s.SameQueue s') : s'.pending = s.pending := by
  obtain ⟨hqueue, hhead, htail⟩ := h
  unfold Sound.pending
  rw [hqueue, hhead, htail]

/-- What a call knows stays true as long as the queue is the same. -/
theorem Sound.SameQueue.ok (h : s.SameQueue s') {call : EnqueueCall} (hok : call.Ok s) :
    call.Ok s' := by
  obtain ⟨hqueue, hhead, htail⟩ := h
  cases call with
  | idle | entered note => trivial
  | computed note nextTail | compared note nextTail | freqWritten note nextTail
  | durationWritten note nextTail => simpa [EnqueueCall.Ok, hqueue, hhead, htail] using hok

/-- The speaker is no business of the queue. -/
theorem soundStop_sameQueue (s : Sound) (port61 : BitVec 8) : s.SameQueue (soundStop s port61) :=
  ⟨rfl, rfl, rfl⟩

/-- `sound_play` sets the speaker, and does not touch the queue. -/
theorem soundPlay_sameQueue (s : Sound) (frequency : BitVec 32) (port61 : BitVec 8) :
    s.SameQueue (soundPlay s frequency port61) := by
  unfold soundPlay
  dsimp only
  split
  · exact soundStop_sameQueue s port61
  · split <;> exact ⟨rfl, rfl, rfl⟩

/-- The head of the queue moves over one cell. -/
def Sound.takeHead (s : Sound) : Sound :=
  { s with soundQHead := Ring.next soundQueueSize s.soundQHead }

/-- A tick leaves the queue alone, or takes the note at its head; it does the second whenever
nothing is playing and the queue is not empty. -/
theorem soundTick_cases (s : Sound) (now : BitVec 64) (port61 : BitVec 8) :
    ((s.soundIsPlaying = true ∨ s.soundQHead = s.soundQTail) ∧
        (soundTick s now port61).1 = none ∧ s.SameQueue (soundTick s now port61).2) ∨
      (s.soundIsPlaying = false ∧ s.soundQHead ≠ s.soundQTail ∧
        (soundTick s now port61).1 = some (s.soundQueue s.soundQHead) ∧
        s.takeHead.SameQueue (soundTick s now port61).2) := by
  unfold soundTick
  split
  · rename_i hplay
    split
    · exact .inl ⟨.inl hplay, rfl, soundStop_sameQueue s port61⟩
    · exact .inl ⟨.inl hplay, rfl, rfl, rfl, rfl⟩
  · rename_i hplay
    split
    · rename_i hne
      refine .inr ⟨Bool.eq_false_iff.2 hplay, hne, rfl, ?_⟩
      dsimp only
      split
      · exact soundPlay_sameQueue s.takeHead _ port61
      · exact soundStop_sameQueue s.takeHead port61
    · rename_i hne
      exact .inl ⟨.inr (not_not.1 hne), rfl, rfl, rfl, rfl⟩

end

section
variable {s : SoundSystem}

/-- The cell at the tail stays free and as it is when the head moves on. -/
theorem SoundSystem.Inv.ok_takeHead (h : s.Inv)
    (hne : s.sound.soundQHead ≠ s.sound.soundQTail) : s.call.Ok s.sound.takeHead := by
  have hfree := Ring.next_tail_ne_next_head h.head_lt h.tail_lt hne
  have hcall := h.call
  cases hc : s.call with
  | idle | entered note => trivial
  | computed note nextTail =>
      rw [hc] at hcall
      exact hcall
  | compared note nextTail =>
      rw [hc] at hcall
      obtain ⟨rfl, -⟩ := hcall
      exact ⟨rfl, hfree⟩
  | freqWritten note nextTail =>
      rw [hc] at hcall
      obtain ⟨⟨rfl, -⟩, hfreq⟩ := hcall
      exact ⟨⟨rfl, hfree⟩, hfreq⟩
  | durationWritten note nextTail =>
      rw [hc] at hcall
      obtain ⟨⟨rfl, -⟩, hnote⟩ := hcall
      exact ⟨⟨rfl, hfree⟩, hnote⟩

/-- The interrupt keeps the invariant wherever it falls: it moves the head only, past a slot that
was published. -/
theorem irq0Handler_inv (h : s.Inv) (port61 : BitVec 8) : (irq0Handler s port61).Inv := by
  have htick := soundTick_cases s.sound (uptimeMs (s.kernelTicks + 1)) port61
  unfold irq0Handler
  dsimp only
  generalize soundTick s.sound (uptimeMs (s.kernelTicks + 1)) port61 = tick at htick
  obtain ⟨taken, sound⟩ := tick
  rcases htick with ⟨-, htaken, hsame⟩ | ⟨-, hne, htaken, hsame⟩
  · dsimp only at htaken hsame
    subst htaken
    refine ⟨hsame.2.1 ▸ h.head_lt, hsame.2.2 ▸ h.tail_lt, hsame.ok h.call, ?_⟩
    simpa [hsame.pending_eq] using h.fifo
  · dsimp only at htaken hsame
    subst htaken
    have htake : s.sound.pending = s.sound.soundQueue s.sound.soundQHead ::
        s.sound.takeHead.pending :=
      Ring.pending_of_ne s.sound.soundQueue h.head_lt h.tail_lt hne
    have hfifo := h.fifo
    rw [htake] at hfifo
    refine ⟨hsame.2.1 ▸ Ring.next_lt h.head_lt, hsame.2.2 ▸ h.tail_lt,
      hsame.ok (h.ok_takeHead hne), ?_⟩
    simpa [hsame.pending_eq] using hfifo

/-! ## The main loop -/

/-- A write to the cell at the tail does not reach the queue. -/
theorem SoundSystem.Inv.pending_update (h : s.Inv) (note : Note) :
    Ring.pending soundQueueSize
        (Function.update s.sound.soundQueue s.sound.soundQTail note)
        s.sound.soundQHead s.sound.soundQTail = s.sound.pending :=
  Ring.pending_update note h.head_lt h.tail_lt

/-- Each step of `sound_enqueue` keeps the invariant: until the last one, which moves the tail, what
it has written is in no slot that counts. -/
theorem enqueueStep_inv (h : s.Inv) : (enqueueStep s).Inv := by
  obtain ⟨hhead, htail, hcall, hfifo⟩ := id h
  unfold enqueueStep
  cases hc : s.call with
  | idle => exact h
  | entered note =>
      rw [hc] at hfifo
      exact ⟨hhead, htail, rfl, hfifo⟩
  | computed note nextTail =>
      rw [hc] at hcall hfifo
      dsimp only
      split
      · rename_i hfree
        refine ⟨hhead, htail, ⟨hcall, hfree⟩, ?_⟩
        rw [EnqueueCall.inFlight, List.append_nil] at hfifo
        exact congrArg (· ++ [note]) hfifo
      · exact ⟨hhead, htail, trivial, hfifo⟩
  | compared note nextTail =>
      rw [hc] at hcall hfifo
      refine ⟨hhead, htail, ⟨hcall, ?_⟩, ?_⟩
      · simp [Sound.writeFreq]
      · rw [← hfifo]
        simp only [Sound.writeFreq, Sound.pending, h.pending_update]
        rfl
  | freqWritten note nextTail =>
      rw [hc] at hcall hfifo
      obtain ⟨hnext, hfreq⟩ := hcall
      refine ⟨hhead, htail, ⟨hnext, ?_⟩, ?_⟩
      · simp [Sound.writeDuration, hfreq]
      · rw [← hfifo]
        simp only [Sound.writeDuration, Sound.pending, h.pending_update]
        rfl
  | durationWritten note nextTail =>
      rw [hc] at hcall hfifo
      obtain ⟨⟨rfl, hfree⟩, hnote⟩ := hcall
      refine ⟨hhead, Ring.next_lt htail, trivial, ?_⟩
      have hpublish := Ring.pending_next_tail s.sound.soundQueue hhead htail hfree
      rw [hnote] at hpublish
      rw [← hfifo]
      simp only [Sound.pending, hpublish, EnqueueCall.inFlight, List.append_nil,
        List.append_assoc]

/-! ## Every interleaving -/

/-- Every event keeps the invariant: the steps of a call, and an interrupt between any two of them.
-/
theorem soundStep_inv (h : s.Inv) (e : SoundEvent) : (soundStep s e).Inv := by
  cases e with
  | enqueue note =>
      unfold soundStep
      dsimp only
      split
      · rename_i hc
        have hfifo := h.fifo
        rw [hc] at hfifo
        exact ⟨h.head_lt, h.tail_lt, trivial, hfifo⟩
      · exact h
  | step => exact enqueueStep_inv h
  | irq0 port61 => exact irq0Handler_inv h port61
  | stop port61 =>
      exact ⟨h.head_lt, h.tail_lt, (soundStop_sameQueue s.sound port61).ok h.call, h.fifo⟩

/-- It holds in every state that a run reaches. -/
theorem SoundSystem.reachable_inv (h : Reachable soundStep .start s) : s.Inv :=
  h.invariant SoundSystem.start_inv fun _ e hs => soundStep_inv hs e

/-- The slot at the head of a queue that is not empty is not the one that a call is writing. -/
theorem SoundSystem.partialSlot_ne (hne : s.sound.soundQHead ≠ s.sound.soundQTail) :
    s.partialSlot ≠ some s.sound.soundQHead := by
  unfold SoundSystem.partialSlot
  split
  · exact fun heq => hne (Option.some.inj heq).symm
  · exact nofun

/-- In every interleaving: the notes taken, then the pending ones, then the one in flight are the
notes accepted; the indices stay in the queue, one slot of which stays free; and a tick takes no
slot that is half written. All of it follows from the invariant of a step. -/
theorem sound_queue_fifo (es : List SoundEvent) :
    let s := run soundStep .start es
    s.taken <+: s.accepted ∧
      s.taken ++ s.sound.pending ++ s.call.inFlight = s.accepted ∧
      s.sound.soundQHead < 16 ∧ s.sound.soundQTail < 16 ∧ s.sound.pending.length ≤ 15 ∧
      ∀ now port61, (soundTick s.sound now port61).1.isSome →
        s.partialSlot ≠ some s.sound.soundQHead := by
  intro s
  have hinv : s.Inv := SoundSystem.reachable_inv ⟨es, rfl⟩
  refine ⟨⟨s.sound.pending ++ s.call.inFlight, ?_⟩, hinv.fifo, hinv.head_lt, hinv.tail_lt,
    Nat.le_of_lt_succ (Ring.length_pending_lt s.sound.soundQueue hinv.head_lt hinv.tail_lt), ?_⟩
  · rw [← List.append_assoc]
    exact hinv.fifo
  · intro now port61 htake
    rcases soundTick_cases s.sound now port61 with ⟨-, hnone, -⟩ | ⟨-, hne, -, -⟩
    · rw [hnone] at htake
      cases htake
    · exact SoundSystem.partialSlot_ne hne

/-- A call that no interrupt falls into is `sound_enqueue`. -/
theorem run_enqueue (s : SoundSystem) (note : Note) (hidle : s.call = .idle) :
    (run soundStep s [.enqueue note, .step, .step, .step, .step, .step]).sound =
      soundEnqueue s.sound note.freq note.durationMs := by
  have hcall : soundStep s (.enqueue note) = { s with call := .entered note } := by
    simp [soundStep, hidle]
  rw [run_cons, hcall]
  unfold soundEnqueue
  dsimp only
  split
  · rename_i hfree
    simp [soundStep, enqueueStep, hfree, Sound.writeFreq, Sound.writeDuration]
  · rename_i hfree
    simp [soundStep, enqueueStep, hfree]

end

end OnkenOS
