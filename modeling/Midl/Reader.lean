import Midl.Source

/-!
# Readers

A reader hands out an input piece by piece. `fillBuf` shows the bytes that are at hand, or is
interrupted, or fails; `consume` takes away bytes that were shown. Looking at one byte (`peek`)
tries again after an interruption, and takes a buffer without bytes for the end of the input.

What is assumed of a reader is in the class: there is a source that it has not handed out yet, of
which it shows the next bytes and nothing else, a buffer without bytes is shown at the end of the
input only, and there are not more than finitely many interruptions on the way.
-/

namespace Midl

/-- What comes of filling a buffer. -/
inductive Fill where
  /-- The bytes at hand. -/
  | buffer (bytes : List UInt8)
  /-- The read was interrupted and can be tried again. -/
  | interrupted
  /-- The read failed. -/
  | failed (message : String)
deriving DecidableEq

/-- An input that is handed out piece by piece. Source: `BufRead`. -/
class Reader (ρ : Type) where
  /-- Looks at the bytes at hand. -/
  fillBuf : ρ → Fill × ρ
  /-- Takes away a number of the bytes at hand. -/
  consume : ρ → Nat → ρ
  /-- What has not been handed out. -/
  unread : ρ → Source
  /-- How many more interruptions there can be. -/
  patience : ρ → Nat
  /-- An interruption changes nothing about what is handed out, and there are not more of them than
  stated. -/
  interrupted {r r' : ρ} : fillBuf r = (.interrupted, r') →
    unread r' = unread r ∧ patience r' < patience r
  /-- Reading fails where the source does. -/
  failed {r r' : ρ} {message : String} : fillBuf r = (.failed message, r') →
    unread r = ⟨[], .failure message⟩
  /-- A buffer without bytes is shown at the end of the input only, which is not passed. -/
  emptied {r r' : ρ} : fillBuf r = (.buffer [], r') →
    unread r = ⟨[], .eof⟩ ∧ unread r' = ⟨[], .eof⟩
  /-- The bytes at hand are the next ones. They can be looked at again, and taken away. -/
  filled {r r' : ρ} {b : UInt8} {bs : List UInt8} : fillBuf r = (.buffer (b :: bs), r') →
    ∃ more, unread r = ⟨b :: more, (unread r).ending⟩ ∧ unread r' = unread r ∧
      unread (consume r' 1) = ⟨more, (unread r).ending⟩

namespace Reader

variable {ρ : Type} [Reader ρ]

/-- What comes of looking at the next byte. -/
inductive Peeked (ρ : Type) where
  /-- The next byte, which is still at hand. -/
  | byte (b : UInt8) (r : ρ)
  /-- There is none. -/
  | finished (r : ρ)
  /-- It cannot be read. -/
  | failed (message : String)

/-- Looks at the next byte. An interrupted read is tried again. Source: `peek`. -/
def peek (r : ρ) : Peeked ρ :=
  match _ : fillBuf r with
  | (.buffer [], r') => .finished r'
  | (.buffer (b :: _), r') => .byte b r'
  | (.interrupted, r') => peek r'
  | (.failed message, _) => .failed message
termination_by patience r
decreasing_by exact (interrupted ‹_›).2

/-- Takes away the byte that was looked at. Source: `bump`. -/
def bump (r : ρ) : ρ := consume r 1

/-! ## What is seen of the source -/

section Peek

variable {r r' : ρ} {b : UInt8} {message : String}

/-- A byte that is seen is the next one. It can be looked at again, and taken away. -/
theorem unread_of_byte (h : peek r = .byte b r') :
    ∃ more, unread r = ⟨b :: more, (unread r).ending⟩ ∧ unread r' = unread r ∧
      unread (bump r') = ⟨more, (unread r).ending⟩ := by
  fun_induction peek r with
  | case2 r r₁ b₁ bs hfill =>
    cases h
    exact filled hfill
  | case3 r r₁ hfill ih =>
    rw [← (interrupted hfill).1]
    exact ih h
  | _ => cases h

/-- If no byte is seen, then the input is over. -/
theorem unread_of_finished (h : peek r = .finished r') :
    unread r = ⟨[], .eof⟩ ∧ unread r' = ⟨[], .eof⟩ := by
  fun_induction peek r with
  | case1 r r₁ hfill =>
    cases h
    exact emptied hfill
  | case3 r r₁ hfill ih =>
    rw [← (interrupted hfill).1]
    exact ih h
  | _ => cases h

/-- If looking fails, then because the input cannot be read any further. -/
theorem unread_of_failed (h : peek r = .failed message) : unread r = ⟨[], .failure message⟩ := by
  fun_induction peek r with
  | case3 r r₁ hfill ih =>
    rw [← (interrupted hfill).1]
    exact ih h
  | case4 r message r₁ hfill =>
    cases h
    exact failed hfill
  | _ => cases h

/-- The number of bytes that have not been handed out. -/
def size (r : ρ) : Nat := (unread r).bytes.length

/-- Looking at a byte takes nothing away. -/
theorem size_of_byte (h : peek r = .byte b r') : size r' = size r := by
  obtain ⟨_, -, hsame, -⟩ := unread_of_byte h
  rw [size, size, hsame]

/-- Taking away a byte that was looked at leaves fewer of them. -/
theorem size_bump_lt (h : peek r = .byte b r') : size (bump r') < size r := by
  obtain ⟨more, hnext, -, hbump⟩ := unread_of_byte h
  rw [size, size, hbump, hnext]
  exact Nat.lt_succ_self _

end Peek

end Reader

/-! ## Bytes at hand -/

/-- Bytes that are at hand all at once. -/
instance : Reader (List UInt8) where
  fillBuf bytes := (.buffer bytes, bytes)
  consume bytes n := bytes.drop n
  unread bytes := ⟨bytes, .eof⟩
  patience _ := 0
  interrupted h := by cases h
  failed h := by cases h
  emptied h := by
    cases h
    exact ⟨rfl, rfl⟩
  filled h := by
    cases h
    exact ⟨_, rfl, rfl, rfl⟩

/-! ## Reads -/

/-- One read from an input. -/
inductive ReadEvent where
  /-- Some bytes arrived; there may be none. -/
  | data (bytes : List UInt8)
  /-- The read was interrupted and is tried again. -/
  | interrupt
  /-- The read failed. -/
  | failure (message : String)

namespace ReadEvent

/-- Looks at the bytes that the next read brings. A read that brings none is passed over, so that
no empty buffer is shown before the end; a failure stays. -/
def fillBuf : List ReadEvent → Fill × List ReadEvent
  | [] => (.buffer [], [])
  | .data [] :: events => fillBuf events
  | .data (b :: bs) :: events => (.buffer (b :: bs), .data (b :: bs) :: events)
  | .interrupt :: events => (.interrupted, events)
  | .failure message :: events => (.failed message, .failure message :: events)

/-- Takes away a number of the bytes that the next read brings. -/
def consume : List ReadEvent → Nat → List ReadEvent
  | .data bytes :: events, n => .data (bytes.drop n) :: events
  | events, _ => events

/-- What a sequence of reads brings. Nothing after a failure is ever seen. -/
def unread : List ReadEvent → Source
  | [] => ⟨[], .eof⟩
  | .data bytes :: events => ⟨bytes ++ (unread events).bytes, (unread events).ending⟩
  | .interrupt :: events => unread events
  | .failure message :: _ => ⟨[], .failure message⟩

/-- An interruption uses up a read, and nothing else. -/
theorem interrupted_of_fillBuf {events later : List ReadEvent}
    (h : fillBuf events = (.interrupted, later)) :
    unread later = unread events ∧ later.length < events.length := by
  fun_induction fillBuf events with
  | case1 => cases h
  | case2 events ih =>
    obtain ⟨hunread, hlength⟩ := ih h
    exact ⟨hunread, Nat.lt_succ_of_lt hlength⟩
  | case3 => cases h
  | case4 events =>
    cases h
    exact ⟨rfl, Nat.lt_succ_self _⟩
  | case5 => cases h

/-- A failure is met where nothing else is left. -/
theorem failed_of_fillBuf {events later : List ReadEvent} {message : String}
    (h : fillBuf events = (.failed message, later)) : unread events = ⟨[], .failure message⟩ := by
  fun_induction fillBuf events with
  | case2 events ih => exact ih h
  | case5 message events =>
    cases h
    rfl
  | _ => cases h

/-- An empty buffer is met at the end. -/
theorem emptied_of_fillBuf {events later : List ReadEvent}
    (h : fillBuf events = (.buffer [], later)) :
    unread events = ⟨[], .eof⟩ ∧ unread later = ⟨[], .eof⟩ := by
  fun_induction fillBuf events with
  | case1 =>
    cases h
    exact ⟨rfl, rfl⟩
  | case2 events ih => exact ih h
  | _ => cases h

/-- Bytes that are met are the next ones, and can be taken away. -/
theorem filled_of_fillBuf {events later : List ReadEvent} {b : UInt8} {bs : List UInt8}
    (h : fillBuf events = (.buffer (b :: bs), later)) :
    ∃ more, unread events = ⟨b :: more, (unread events).ending⟩ ∧ unread later = unread events ∧
      unread (consume later 1) = ⟨more, (unread events).ending⟩ := by
  fun_induction fillBuf events with
  | case2 events ih => exact ih h
  | case3 b bs events =>
    cases h
    exact ⟨_, rfl, rfl, rfl⟩
  | _ => cases h

instance : Reader (List ReadEvent) where
  fillBuf := fillBuf
  consume := consume
  unread := unread
  patience := List.length
  interrupted := interrupted_of_fillBuf
  failed := failed_of_fillBuf
  emptied := emptied_of_fillBuf
  filled := filled_of_fillBuf

end ReadEvent

end Midl
