/-!
# Byte sinks

Where output goes. A sink takes bytes until its room is used up and then refuses, either with an
error or by taking nothing at all. A write takes what fits; to write everything, the rest is offered
again until nothing is left or the sink refuses.

* `writeAll_unlimited`: a sink without a limit takes everything.
-/

namespace Sexp

/-- Why reading or writing a stream failed. -/
inductive StreamFault where
  /-- What the device reports. -/
  | reported (text : String)
  /-- A write took no bytes. -/
  | tookNothing
  /-- The bytes that were read are not UTF-8. -/
  | notUtf8
  deriving DecidableEq

def StreamFault.message : StreamFault → String
  | reported text => text
  | tookNothing => "failed to write whole buffer"
  | notUtf8 => "stream did not contain valid UTF-8"

/-- What a sink does with a write when it is full. -/
inductive Refusal where
  | report (text : String)
  | takeNothing
  deriving DecidableEq

/-- A place for output. -/
structure Sink where
  /-- The bytes taken so far. -/
  written : ByteArray := .empty
  /-- How many more bytes fit; no number is no limit. -/
  room? : Option Nat := none
  refusal : Refusal := .takeNothing

namespace Sink

/-- One write: the sink takes what fits of the bytes, and tells how many it took or why it took
none. -/
def offer (s : Sink) (bytes : ByteArray) : Sink × Except StreamFault Nat :=
  match s with
  | ⟨written, none, refusal⟩ => (⟨written ++ bytes, none, refusal⟩, .ok bytes.size)
  | ⟨written, some room, refusal⟩ =>
    if room = 0 ∧ bytes.size ≠ 0 then
      match refusal with
      | .report text => (⟨written, some room, .report text⟩, .error (.reported text))
      | .takeNothing => (⟨written, some room, .takeNothing⟩, .ok 0)
    else
      let n := min room bytes.size
      (⟨written ++ bytes.extract 0 n, some (room - n), refusal⟩, .ok n)

/-- Writes all of the bytes, unless the sink refuses; then what it took before that stays. -/
def writeAll (s : Sink) (bytes : ByteArray) : Sink × Option StreamFault :=
  if bytes.size = 0 then (s, none)
  else
    match s.offer bytes with
    | (s, .error fault) => (s, some fault)
    | (s, .ok 0) => (s, some .tookNothing)
    | (s, .ok (n + 1)) => s.writeAll (bytes.extract (n + 1) bytes.size)
termination_by bytes.size
decreasing_by
  simp only [ByteArray.size_extract]
  omega

/-- Writes the texts one after the other, up to the first refusal. -/
def writeTexts (s : Sink) : List String → Sink × Option StreamFault
  | [] => (s, none)
  | text :: texts =>
    match s.writeAll text.toUTF8 with
    | (s, none) => s.writeTexts texts
    | (s, some fault) => (s, some fault)

/-! ## Sinks without a limit -/

theorem writeAll_unlimited (written bytes : ByteArray) (refusal : Refusal) :
    writeAll ⟨written, none, refusal⟩ bytes = (⟨written ++ bytes, none, refusal⟩, none) := by
  rw [writeAll]
  by_cases h : bytes.size = 0
  · obtain rfl : bytes = .empty := ByteArray.size_eq_zero_iff.1 h
    simp
  · obtain ⟨n, hn⟩ := Nat.exists_eq_succ_of_ne_zero h
    simp only [offer, hn]
    rw [writeAll]
    simp

end Sink

end Sexp
