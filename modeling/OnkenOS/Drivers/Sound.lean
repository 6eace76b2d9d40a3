import OnkenOS.Lib.Run
import OnkenOS.Lib.Ring

/-!
# The sound queue

`drivers/sound.c`: the main loop enqueues notes, the timer interrupt (`kernel/time/pit.c`) takes
them and plays them on the speaker. The interrupt can fall between any two steps of
`sound_enqueue`, so a call is cut into its steps here. The notes taken are, in their order, the
ones accepted, and no half-written note is ever taken (`sound_queue_fifo`).
-/

namespace OnkenOS

open Machine

/-! ## The driver -/

/-- `note_t`. -/
structure Note where
  freq : BitVec 32
  durationMs : BitVec 32
deriving DecidableEq

/-- `SOUND_QUEUE_SIZE`. -/
abbrev soundQueueSize : Nat := 16

/-- The static variables of `sound.c`, and the bytes written to the ports so far. -/
structure Sound where
  soundQueue : Nat → Note
  soundQHead : Nat
  soundQTail : Nat
  currentNoteEndMs : BitVec 64
  soundIsPlaying : Bool
  ports : List (BitVec 16 × BitVec 8)

/-- The static initialisers. -/
def Sound.static : Sound := ⟨fun _ => ⟨0, 0⟩, 0, 0, 0, false, []⟩

/-- `outb`. -/
def outb (s : Sound) (port : BitVec 16) (value : BitVec 8) : Sound :=
  { s with ports := s.ports ++ [(port, value)] }

/-- `sound_stop`, for the byte that `inb(0x61)` reads. -/
def soundStop (s : Sound) (port61 : BitVec 8) : Sound :=
  { outb s 0x61 (port61 &&& 0xFC) with soundIsPlaying := false }

/-- `sound_play`. -/
def soundPlay (s : Sound) (frequency : BitVec 32) (port61 : BitVec 8) : Sound :=
  if frequency = 0 then soundStop s port61
  else
    let div := 1193180 / frequency
    let s := outb s 0x43 0xB6
    let s := outb s 0x42 ((div &&& 0xFF).setWidth 8)
    let s := outb s 0x42 (((div >>> 8) &&& 0xFF).setWidth 8)
    if port61 ≠ port61 ||| 3 then outb s 0x61 (port61 ||| 3) else s

/-- `sound_enqueue`, when no interrupt falls into it. -/
def soundEnqueue (s : Sound) (frequency durationMs : BitVec 32) : Sound :=
  let nextTail := (s.soundQTail + 1) % soundQueueSize
  if nextTail ≠ s.soundQHead then
    { s with
      soundQueue := Function.update s.soundQueue s.soundQTail ⟨frequency, durationMs⟩
      soundQTail := nextTail }
  else s

/-- `sound_tick`, for the uptime it reads: the note it takes from the queue, and the driver
after it. -/
def soundTick (s : Sound) (uptimeMs : BitVec 64) (port61 : BitVec 8) : Option Note × Sound :=
  if s.soundIsPlaying then
    if s.currentNoteEndMs ≤ uptimeMs then (none, soundStop s port61) else (none, s)
  else if s.soundQHead ≠ s.soundQTail then
    let note := s.soundQueue s.soundQHead
    let s := { s with soundQHead := (s.soundQHead + 1) % soundQueueSize }
    let s :=
      if 0 < note.freq then { soundPlay s note.freq port61 with soundIsPlaying := true }
      else { soundStop s port61 with soundIsPlaying := true }
    (some note, { s with currentNoteEndMs := uptimeMs + note.durationMs.setWidth 64 })
  else (none, s)

/-! ## The timer -/

/-- `timer_frequency`, as the kernel sets it. -/
def timerFrequency : BitVec 32 := 1000

/-- `uptime_ms`. -/
def uptimeMs (kernelTicks : BitVec 64) : BitVec 64 :=
  kernelTicks * 1000 / timerFrequency.setWidth 64

/-! ## The two sides -/

/-- Where the main loop stands in `sound_enqueue`: outside, before the first step, or behind the
computation of `next_tail`, the comparison with the head, the write of the frequency, the write
of the duration. -/
inductive EnqueueCall where
  | idle
  | entered (note : Note)
  | computed (note : Note) (nextTail : Nat)
  | compared (note : Note) (nextTail : Nat)
  | freqWritten (note : Note) (nextTail : Nat)
  | durationWritten (note : Note) (nextTail : Nat)

/-- The driver, the clock, and the main loop. The last two fields are not in the source: the
notes that `sound_enqueue` has accepted and the ones that `sound_tick` has taken. -/
structure SoundSystem where
  sound : Sound
  kernelTicks : BitVec 64
  call : EnqueueCall
  accepted : List Note
  taken : List Note

/-- Before the first interrupt. -/
def SoundSystem.start : SoundSystem := ⟨.static, 0, .idle, [], []⟩

/-- `sound_queue[sound_q_tail].freq = frequency`. -/
def Sound.writeFreq (s : Sound) (frequency : BitVec 32) : Sound :=
  { s with
    soundQueue := Function.update s.soundQueue s.soundQTail
      { s.soundQueue s.soundQTail with freq := frequency } }

/-- `sound_queue[sound_q_tail].duration_ms = duration_ms`. -/
def Sound.writeDuration (s : Sound) (durationMs : BitVec 32) : Sound :=
  { s with
    soundQueue := Function.update s.soundQueue s.soundQTail
      { s.soundQueue s.soundQTail with durationMs := durationMs } }

/-- The next step of the call of `sound_enqueue`. It accepts its note by the comparison. -/
def enqueueStep (s : SoundSystem) : SoundSystem :=
  match s.call with
  | .idle => s
  | .entered note =>
      { s with call := .computed note ((s.sound.soundQTail + 1) % soundQueueSize) }
  | .computed note nextTail =>
      if nextTail ≠ s.sound.soundQHead then
        { s with call := .compared note nextTail, accepted := s.accepted ++ [note] }
      else { s with call := .idle }
  | .compared note nextTail =>
      { s with sound := s.sound.writeFreq note.freq, call := .freqWritten note nextTail }
  | .freqWritten note nextTail =>
      { s with
        sound := s.sound.writeDuration note.durationMs
        call := .durationWritten note nextTail }
  | .durationWritten _ nextTail =>
      { s with sound := { s.sound with soundQTail := nextTail }, call := .idle }

/-- What can happen: the main loop calls `sound_enqueue`, or takes the next step of the call it
is in; the timer interrupts; somebody calls `sound_stop`. -/
inductive SoundEvent where
  | enqueue (note : Note)
  | step
  | irq0 (port61 : BitVec 8)
  | stop (port61 : BitVec 8)

/-- `irq0_handler`, as far as the sound is concerned. -/
def irq0Handler (s : SoundSystem) (port61 : BitVec 8) : SoundSystem :=
  let kernelTicks := s.kernelTicks + 1
  let tick := soundTick s.sound (uptimeMs kernelTicks) port61
  { s with sound := tick.2, kernelTicks := kernelTicks, taken := s.taken ++ tick.1.toList }

/-- One event. The main loop does not call `sound_enqueue` from inside a call. -/
def soundStep (s : SoundSystem) : SoundEvent → SoundSystem
  | .enqueue note =>
      match s.call with
      | .idle => { s with call := .entered note }
      | _ => s
  | .step => enqueueStep s
  | .irq0 port61 => irq0Handler s port61
  | .stop port61 => { s with sound := soundStop s.sound port61 }

end OnkenOS
