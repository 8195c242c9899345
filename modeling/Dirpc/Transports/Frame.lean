import Dirpc.Base.LittleEndian

namespace Dirpc

open Base

abbrev Frame := Int × List UInt8

structure Frame.Valid (frame : Frame) : Prop where
  low : -2147483648 ≤ frame.1
  high : frame.1 < 2147483648
  length : frame.2.length < 4294967296

def encode (opcode : Int) (data : List UInt8) : List UInt8 :=
  toLeI32 opcode ++ (toLeI32 data.length ++ data)

def wire (frames : List Frame) : List UInt8 := frames.flatMap fun frame => encode frame.1 frame.2

def frameOpcode (header : List UInt8) : Int := ofLeI32 (header.take 4)

def frameLength (header : List UInt8) : Nat := ofLe ((header.drop 4).take 4)

/-- The future of `read_frame`: filling the header, or, with the header read, the body. -/
inductive ReadFrame where
  | inHeader (got : List UInt8)
  | inBody (header got : List UInt8)

inductive PollRead where
  | pending
  | err
  | ok (frame : Frame)

def readExact (n : Nat) (got arrived : List UInt8) : List UInt8 × List UInt8 :=
  (got ++ arrived.take (n - got.length), arrived.drop (n - got.length))

namespace ReadFrame

def taken : ReadFrame → List UInt8
  | .inHeader got => got
  | .inBody header got => header ++ got

def pollBody (header got arrived : List UInt8) (eof : Bool) :
    PollRead × ReadFrame × List UInt8 :=
  let (got, rest) := readExact (frameLength header) got arrived
  if got.length < frameLength header then (if eof then .err else .pending, .inBody header got, rest)
  else (.ok (frameOpcode header, got), .inHeader [], rest)

/-- One poll of the future: its result, its state afterwards (a fresh future after a frame), and
    what is left in the reader. A reader at its end yields an error. -/
def poll (arrived : List UInt8) (eof : Bool) : ReadFrame → PollRead × ReadFrame × List UInt8
  | .inHeader got =>
    let (got, rest) := readExact 8 got arrived
    if got.length < 8 then (if eof then .err else .pending, .inHeader got, rest)
    else pollBody got [] rest eof
  | .inBody header got => pollBody header got arrived eof

def Partial : ReadFrame → Prop
  | .inHeader got => got.length < 8
  | .inBody header got => header.length = 8 ∧ got.length < frameLength header

theorem partial_fresh : Partial (.inHeader []) := by
  show (0 : Nat) < 8
  decide

end ReadFrame

def HasFrame (bytes : List UInt8) : Prop :=
  8 ≤ bytes.length ∧ 8 + frameLength bytes ≤ bytes.length

instance (bytes : List UInt8) : Decidable (HasFrame bytes) := inferInstanceAs (Decidable (_ ∧ _))

/-- What reading a frame from these bytes comes to, however they arrived. -/
def readAll (bytes : List UInt8) (eof : Bool) : PollRead × ReadFrame × List UInt8 :=
  if HasFrame bytes then
    (.ok (frameOpcode bytes, (bytes.drop 8).take (frameLength bytes)), .inHeader [],
      bytes.drop (8 + frameLength bytes))
  else (if eof then .err else .pending,
    if bytes.length < 8 then .inHeader bytes else .inBody (bytes.take 8) (bytes.drop 8), [])

theorem readExact_eq {n : Nat} {got arrived : List UInt8} (short : got.length ≤ n) :
    readExact n got arrived = ((got ++ arrived).take n, (got ++ arrived).drop n) := by
  rw [readExact, List.take_append, List.drop_append, List.take_of_length_le short,
    List.drop_of_length_le short, List.nil_append]

theorem frameLength_append {header rest : List UInt8} (whole : header.length = 8) :
    frameLength (header ++ rest) = frameLength header := by
  unfold frameLength
  rw [List.drop_append_of_le_length (by omega), List.take_append_of_le_length
    (by rw [List.length_drop]; omega)]

theorem frameOpcode_append {header rest : List UInt8} (whole : header.length = 8) :
    frameOpcode (header ++ rest) = frameOpcode header := by
  unfold frameOpcode
  rw [List.take_append_of_le_length (by omega)]

theorem ReadFrame.pollBody_eq {header got arrived : List UInt8} {eof : Bool}
    (whole : header.length = 8) (short : got.length ≤ frameLength header) :
    pollBody header got arrived eof = readAll (header ++ (got ++ arrived)) eof := by
  have total : (header ++ (got ++ arrived)).length = 8 + (got ++ arrived).length := by
    rw [List.length_append, whole]
  have sameLength : frameLength (header ++ (got ++ arrived)) = frameLength header :=
    frameLength_append whole
  unfold pollBody
  rw [readExact_eq short]
  dsimp only
  by_cases complete : frameLength header ≤ (got ++ arrived).length
  · have found : HasFrame (header ++ (got ++ arrived)) := ⟨by omega, by omega⟩
    have filled : ¬((got ++ arrived).take (frameLength header)).length < frameLength header := by
      rw [List.length_take]
      omega
    rw [if_neg filled, readAll, if_pos found, sameLength, frameOpcode_append whole,
      ← List.drop_drop, List.drop_left' whole]
  · have none : ¬HasFrame (header ++ (got ++ arrived)) := by
      intro found
      have := found.2
      omega
    have fewer : ((got ++ arrived).take (frameLength header)).length < frameLength header := by
      rw [List.length_take]
      omega
    have header : ¬(header ++ (got ++ arrived)).length < 8 := by omega
    rw [if_pos fewer, readAll, if_neg none, if_neg header, List.take_left' whole,
      List.drop_left' whole, List.take_of_length_le (by omega), List.drop_of_length_le (by omega)]

/-- However often the future was polled before, a poll reads the bytes as if they had all just
    arrived. -/
theorem ReadFrame.poll_eq {fut : ReadFrame} (partialRead : fut.Partial) (arrived : List UInt8)
    (eof : Bool) : fut.poll arrived eof = readAll (fut.taken ++ arrived) eof := by
  cases fut with
  | inBody header got =>
    rw [poll, pollBody_eq partialRead.1 (Nat.le_of_lt partialRead.2), taken, List.append_assoc]
  | inHeader got =>
    have short : got.length ≤ 8 := Nat.le_of_lt partialRead
    rw [poll, readExact_eq short, taken]
    by_cases whole : 8 ≤ (got ++ arrived).length
    · have length : ((got ++ arrived).take 8).length = 8 := by
        rw [List.length_take]
        omega
      simp only [length, Nat.lt_irrefl, if_false]
      rw [pollBody_eq length (Nat.zero_le _), List.nil_append, List.take_append_drop]
    · have fewer : ((got ++ arrived).take 8).length < 8 := by
        rw [List.length_take]
        omega
      have none : ¬HasFrame (got ++ arrived) := fun found => whole found.1
      simp only [fewer, if_true]
      rw [readAll, if_neg none, if_pos (Nat.lt_of_not_le whole), List.take_of_length_le (by omega),
        List.drop_of_length_le (by omega)]

theorem frameLength_lt {bytes : List UInt8} (found : HasFrame bytes) :
    frameLength bytes < 4294967296 := by
  have word : ((bytes.drop 4).take 4).length = 4 := by
    have := found.1
    rw [List.length_take, List.length_drop]
    omega
  have bound := ofLe_lt ((bytes.drop 4).take 4)
  rw [word] at bound
  exact bound

theorem frame_split {bytes : List UInt8} (found : HasFrame bytes) :
    encode (frameOpcode bytes) ((bytes.drop 8).take (frameLength bytes)) ++
      bytes.drop (8 + frameLength bytes) = bytes := by
  obtain ⟨header, complete⟩ := found
  have opcode : (bytes.take 4).length = 4 := by
    rw [List.length_take]
    omega
  have word : ((bytes.drop 4).take 4).length = 4 := by
    rw [List.length_take, List.length_drop]
    omega
  have body : ((bytes.drop 8).take (frameLength bytes)).length = frameLength bytes := by
    rw [List.length_take, List.length_drop]
    omega
  have length : toLeI32 (frameLength bytes) = (bytes.drop 4).take 4 := by
    rw [toLeI32_natCast, frameLength]
    have same := toLe_ofLe ((bytes.drop 4).take 4)
    rwa [word] at same
  rw [encode, body, length, frameOpcode, toLeI32_ofLeI32 opcode, ← List.drop_drop,
    List.append_assoc, List.append_assoc, List.take_append_drop, ← List.drop_drop (i := 4) (j := 4),
    List.take_append_drop, List.take_append_drop]

theorem frame_valid {bytes : List UInt8} (found : HasFrame bytes) :
    Frame.Valid (frameOpcode bytes, (bytes.drop 8).take (frameLength bytes)) := by
  have bound := frameLength_lt found
  have word : (bytes.take 4).length = 4 := by
    have := found.1
    rw [List.length_take]
    omega
  have range := ofLeI32_range word
  refine ⟨?_, ?_, Nat.lt_of_le_of_lt (List.length_take_le ..) bound⟩
  · exact range.1
  · exact range.2

theorem readAll_frame {bytes : List UInt8} (found : HasFrame bytes) (eof : Bool) :
    ∃ frame rest, readAll bytes eof = (.ok frame, .inHeader [], rest) ∧ frame.Valid ∧
      encode frame.1 frame.2 ++ rest = bytes := by
  rw [readAll, if_pos found]
  exact ⟨_, _, rfl, frame_valid found, frame_split found⟩

theorem readAll_partial {bytes : List UInt8} (none : ¬HasFrame bytes) (eof : Bool) :
    ∃ fut : ReadFrame, readAll bytes eof = (if eof then .err else .pending, fut, []) ∧
      fut.Partial ∧ fut.taken = bytes := by
  rw [readAll, if_neg none]
  refine ⟨_, rfl, ?_⟩
  by_cases short : bytes.length < 8
  · rw [if_pos short]
    exact ⟨short, rfl⟩
  · rw [if_neg short]
    have whole : (bytes.take 8).length = 8 := by
      rw [List.length_take]
      omega
    refine ⟨⟨whole, ?_⟩, List.take_append_drop ..⟩
    have same : frameLength (bytes.take 8) = frameLength bytes := by
      conv_rhs => rw [← List.take_append_drop 8 bytes]
      exact (frameLength_append whole).symm
    have missing : ¬8 + frameLength bytes ≤ bytes.length := fun enough => none ⟨by omega, enough⟩
    rw [same, List.length_drop]
    omega

theorem encode_length (frame : Frame) : (encode frame.1 frame.2).length = 8 + frame.2.length := by
  rw [encode, List.length_append, List.length_append, toLeI32_length, toLeI32_length]
  omega

theorem prefix_encode {frame other : Frame} (valid : frame.Valid) (valid' : other.Valid)
    {xs ys : List UInt8}
    (prefixed : encode frame.1 frame.2 ++ xs <+: encode other.1 other.2 ++ ys) :
    frame = other ∧ xs <+: ys := by
  obtain ⟨rest, same⟩ := prefixed
  unfold encode at same
  simp only [List.append_assoc] at same
  obtain ⟨opcodes, same⟩ := List.append_inj same (by simp)
  obtain ⟨words, same⟩ := List.append_inj same (by simp)
  have opcode : frame.1 = other.1 := by
    rw [← ofLeI32_toLeI32 valid.low valid.high, opcodes, ofLeI32_toLeI32 valid'.low valid'.high]
  have length : frame.2.length = other.2.length := by
    rw [toLeI32_natCast, toLeI32_natCast] at words
    have left := ofLe_toLe (show frame.2.length < 256 ^ 4 from valid.length)
    have right := ofLe_toLe (show other.2.length < 256 ^ 4 from valid'.length)
    rw [← left, words, right]
  obtain ⟨bodies, same⟩ := List.append_inj same length
  exact ⟨Prod.ext opcode bodies, rest, same⟩

@[simp] theorem wire_cons (frame : Frame) (frames : List Frame) :
    wire (frame :: frames) = encode frame.1 frame.2 ++ wire frames := List.flatMap_cons

theorem wire_concat (frames : List Frame) (frame : Frame) :
    wire (frames ++ [frame]) = wire frames ++ encode frame.1 frame.2 := by
  rw [wire, List.flatMap_append]
  exact congrArg _ (List.append_nil _)

theorem prefix_wire {results frames : List Frame} (read : ∀ frame ∈ results, frame.Valid)
    (valid : ∀ frame ∈ frames, frame.Valid) {more : List UInt8}
    (prefixed : wire results ++ more <+: wire frames) : results <+: frames := by
  induction results generalizing frames with
  | nil => exact List.nil_prefix
  | cons result results ih =>
    rw [wire_cons, List.append_assoc] at prefixed
    cases frames with
    | nil =>
      have length := prefixed.length_le
      rw [List.length_append, encode_length] at length
      change _ ≤ 0 at length
      omega
    | cons frame frames =>
      rw [wire_cons] at prefixed
      obtain ⟨rfl, rest⟩ := prefix_encode (read result (by simp)) (valid frame (by simp)) prefixed
      obtain ⟨later, same⟩ := ih (fun other member => read other (by simp [member]))
        (fun other member => valid other (by simp [member])) rest
      exact ⟨later, by rw [← same, List.cons_append]⟩

end Dirpc
