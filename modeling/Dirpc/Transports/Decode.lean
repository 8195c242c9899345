import Dirpc.Base.Stream
import Dirpc.Transports.Frame
import Dirpc.Types

namespace Dirpc

open Base

/-- A byte slice in memory: its length is at most `isize::MAX`. -/
structure Slice where
  data : List UInt8
  fits : data.length < 2 ^ 63

def asUsize (n : Int) : Nat := (n % 2 ^ 64).toNat

/-- Addition of `usize`, which panics on overflow where overflow is checked, and else wraps. -/
def addUsize (checked : Bool) (a b : Nat) : MayPanic Nat :=
  if a + b < 2 ^ 64 then some (a + b) else if checked then none else some ((a + b) % 2 ^ 64)

def sliceRange (start stop : Nat) (data : List UInt8) : MayPanic (List UInt8) :=
  if start ≤ stop ∧ stop ≤ data.length then some ((data.take stop).drop start) else none

def signedLength (header : List UInt8) : Int := ofLeI32 ((header.drop 4).take 4)

/-- Decode a complete IPC frame from a byte slice (must include header + body). `checked` says
    whether the build checks arithmetic for overflow. -/
def decode (checked : Bool) (data : List UInt8) : MayPanic (Option (Int × String)) :=
  if data.length < 8 then some none
  else do
    let opcode := frameOpcode data
    let length := asUsize (signedLength data)
    let stop ← addUsize checked 8 length
    if data.length < stop then some none
    else
      let stop ← addUsize checked 8 length
      let body ← sliceRange 8 stop data
      some ((fromUtf8 body).map fun text => (opcode, String.ofList text))

structure IsFrame (data : List UInt8) (opcode : Int) (text : String) : Prop where
  header : 8 ≤ data.length
  op : opcode = frameOpcode data
  nonneg : 0 ≤ signedLength data
  complete : 8 + signedLength data ≤ data.length
  body : utf8 text = (data.drop 8).take (signedLength data).toNat

/-- The length fields with which the end of the body wraps around to before its start. -/
def LengthWraps (data : List UInt8) : Prop :=
  8 ≤ data.length ∧ -8 ≤ signedLength data ∧ signedLength data < 0

theorem asUsize_nonneg {n : Int} (nonneg : 0 ≤ n) (high : n < 2 ^ 63) : asUsize n = n.toNat := by
  unfold asUsize
  omega

theorem asUsize_neg {n : Int} (negative : n < 0) (low : -2 ^ 63 ≤ n) :
    (asUsize n : Int) = 2 ^ 64 + n := by
  unfold asUsize
  omega

theorem signedLength_range {data : List UInt8} (header : 8 ≤ data.length) :
    -2147483648 ≤ signedLength data ∧ signedLength data < 2147483648 := by
  apply ofLeI32_range
  rw [List.length_take, List.length_drop]
  omega

theorem decode_short (checked : Bool) {data : List UInt8} (short : data.length < 8) :
    decode checked data = some none := by
  rw [decode, if_pos short]

theorem decode_header (checked : Bool) {data : List UInt8} (header : 8 ≤ data.length) :
    decode checked data = (addUsize checked 8 (asUsize (signedLength data))).bind fun stop =>
      if data.length < stop then some none
      else (sliceRange 8 stop data).map fun body =>
        (fromUtf8 body).map fun text => (frameOpcode data, String.ofList text) := by
  rw [decode, if_neg (Nat.not_lt.mpr header)]
  cases sum : addUsize checked 8 (asUsize (signedLength data)) with
  | none => simp [sum]
  | some stop =>
    simp only [sum, Option.bind_eq_bind, Option.bind_some]
    cases sliceRange 8 stop data <;> rfl

theorem decode_nonneg (checked : Bool) {data : List UInt8} (header : 8 ≤ data.length)
    (nonneg : 0 ≤ signedLength data) :
    decode checked data = some (if 8 + signedLength data ≤ data.length then
      (fromUtf8 ((data.drop 8).take (signedLength data).toNat)).map fun text =>
        (frameOpcode data, String.ofList text)
      else none) := by
  have range := signedLength_range header
  have size := asUsize_nonneg nonneg (by omega)
  have sum : addUsize checked 8 (signedLength data).toNat = some (8 + (signedLength data).toNat) := by
    rw [addUsize, if_pos (by omega)]
  rw [decode_header checked header, size, sum, Option.bind_some]
  by_cases complete : 8 + signedLength data ≤ data.length
  · have cut : sliceRange 8 (8 + (signedLength data).toNat) data =
        some ((data.drop 8).take (signedLength data).toNat) := by
      rw [sliceRange, if_pos ⟨by omega, by omega⟩, List.drop_take, Nat.add_sub_cancel_left]
    rw [if_neg (by omega), cut, if_pos complete, Option.map_some]
  · rw [if_pos (by omega), if_neg complete]

theorem decode_huge (checked : Bool) {slice : Slice} (header : 8 ≤ slice.data.length)
    (huge : signedLength slice.data < -8) : decode checked slice.data = some none := by
  have range := signedLength_range header
  have size := asUsize_neg (show signedLength slice.data < 0 by omega) (by omega)
  have fits := slice.fits
  have sum : addUsize checked 8 (asUsize (signedLength slice.data)) =
      some (8 + asUsize (signedLength slice.data)) := by
    rw [addUsize, if_pos (by omega)]
  rw [decode_header checked header, sum, Option.bind_some, if_pos (by omega)]

theorem decode_wraps (checked : Bool) {data : List UInt8} (wraps : LengthWraps data) :
    decode checked data = none := by
  obtain ⟨header, low, negative⟩ := wraps
  have size := asUsize_neg negative (by omega)
  have overflow : ¬8 + asUsize (signedLength data) < 2 ^ 64 := by omega
  rw [decode_header checked header, addUsize, if_neg overflow]
  cases checked with
  | true => rfl
  | false =>
    have before : (8 + asUsize (signedLength data)) % 2 ^ 64 < 8 := by omega
    rw [if_neg Bool.false_ne_true, Option.bind_some, if_neg (by omega), sliceRange,
      if_neg (by omega), Option.map_none]

theorem isFrame_iff {data : List UInt8} (header : 8 ≤ data.length) (nonneg : 0 ≤ signedLength data)
    (opcode : Int) (text : String) :
    (if 8 + signedLength data ≤ data.length then
      (fromUtf8 ((data.drop 8).take (signedLength data).toNat)).map fun text =>
        (frameOpcode data, String.ofList text)
      else none) = some (opcode, text) ↔ IsFrame data opcode text := by
  by_cases complete : 8 + signedLength data ≤ data.length
  · rw [if_pos complete, Option.map_eq_some_iff]
    constructor
    · intro assumed
      rcases assumed with ⟨chars, decoded, same⟩
      cases same
      refine ⟨header, rfl, nonneg, complete, ?_⟩
      rw [utf8, String.toList_ofList]
      exact fromUtf8_eq_some.mp decoded
    · intro frame
      refine ⟨text.toList, fromUtf8_eq_some.mpr frame.body, ?_⟩
      rw [frame.op, String.ofList_toList]
  · rw [if_neg complete]
    exact iff_of_false nofun fun frame => complete frame.complete

/-- `decode` accepts exactly the frames, unless the length field is one of the last eight negative
    numbers: then it panics. -/
theorem decode_exact_iff (checked : Bool) (slice : Slice) :
    (∃ result, decode checked slice.data = some result ∧
      ∀ opcode text, result = some (opcode, text) ↔ IsFrame slice.data opcode text) ↔
        ¬LengthWraps slice.data := by
  by_cases wraps : LengthWraps slice.data
  · have panics := decode_wraps checked wraps
    apply iff_of_false _ (not_not.mpr wraps)
    intro assumed
    rcases assumed with ⟨result, decoded, _⟩
    rw [panics] at decoded
    cases decoded
  · apply iff_of_true _ wraps
    by_cases header : 8 ≤ slice.data.length
    · by_cases nonneg : 0 ≤ signedLength slice.data
      · exact ⟨_, decode_nonneg checked header nonneg, isFrame_iff header nonneg⟩
      · have huge : signedLength slice.data < -8 := by
          by_contra near
          exact wraps ⟨header, by omega, by omega⟩
        refine ⟨none, decode_huge checked header huge, ?_⟩
        intro opcode text
        exact iff_of_false nofun fun frame => nonneg frame.nonneg
    · refine ⟨none, decode_short checked (Nat.lt_of_not_le header), ?_⟩
      intro opcode text
      exact iff_of_false nofun fun frame => header frame.header

def minusOne : Slice := ⟨[1, 0, 0, 0, 255, 255, 255, 255], by decide⟩

theorem minus_one_panics :
    decode true minusOne.data = none ∧ decode false minusOne.data = none ∧
      ∀ opcode text, ¬IsFrame minusOne.data opcode text := by
  have wraps : LengthWraps minusOne.data := ⟨by decide, by decide, by decide⟩
  refine ⟨decode_wraps true wraps, decode_wraps false wraps, ?_⟩
  intro opcode text frame
  exact absurd frame.nonneg (by decide)

structure TextFrame where
  opcode : Int
  text : String
  low : -2147483648 ≤ opcode
  high : opcode < 2147483648
  short : (utf8 text).length < 2147483648

namespace TextFrame

def encoded (f : TextFrame) : List UInt8 := encode f.opcode (utf8 f.text)

def frame (f : TextFrame) : Frame := (f.opcode, utf8 f.text)

def header (f : TextFrame) : List UInt8 := toLeI32 f.opcode ++ toLeI32 (utf8 f.text).length

end TextFrame

def readFrame (reader : List UInt8) : Option (Frame × List UInt8) :=
  match (ReadFrame.inHeader []).poll reader true with
  | (.ok frame, _, rest) => some (frame, rest)
  | _ => none

def decodeNext (checked : Bool) (data : List UInt8) : Option ((Int × String) × List UInt8) :=
  match decode checked data with
  | some (some (opcode, text)) => some ((opcode, text), data.drop (8 + (utf8 text).length))
  | _ => none

theorem readFrame_eq (reader : List UInt8) :
    readFrame reader = if HasFrame reader then
      some ((frameOpcode reader, (reader.drop 8).take (frameLength reader)),
        reader.drop (8 + frameLength reader))
      else none := by
  unfold readFrame
  rw [ReadFrame.poll_eq ReadFrame.partial_fresh]
  change (match readAll reader true with
    | (.ok frame, _, rest) => some (frame, rest)
    | _ => none) = _
  by_cases found : HasFrame reader
  · rw [readAll, if_pos found, if_pos found]
  · rw [readAll, if_neg found, if_neg found]
    rfl

theorem signedLength_append {header rest : List UInt8} (whole : header.length = 8) :
    signedLength (header ++ rest) = signedLength header := by
  unfold signedLength
  rw [List.drop_append_of_le_length (by omega), List.take_append_of_le_length
    (by rw [List.length_drop]; omega)]

namespace TextFrame

variable (f : TextFrame)

theorem encoded_eq : f.encoded = f.header ++ utf8 f.text := (List.append_assoc ..).symm

@[simp] theorem header_length : f.header.length = 8 := by
  rw [header, List.length_append, toLeI32_length, toLeI32_length]

theorem lengthField : (f.header.drop 4).take 4 = toLeI32 (utf8 f.text).length := by
  rw [header, List.drop_left' (toLeI32_length _), List.take_of_length_le (by simp)]

theorem frameOpcode_header : frameOpcode f.header = f.opcode := by
  rw [frameOpcode, header, List.take_left' (toLeI32_length _), ofLeI32_toLeI32 f.low f.high]

theorem signedLength_header : signedLength f.header = (utf8 f.text).length := by
  have short := f.short
  rw [signedLength, lengthField, ofLeI32_toLeI32 (by omega) (by omega)]

theorem frameLength_header : frameLength f.header = (utf8 f.text).length := by
  have short := f.short
  rw [frameLength, lengthField, toLeI32_natCast, ofLe_toLe (by omega)]

theorem encoded_length : f.encoded.length = 8 + (utf8 f.text).length := encode_length f.frame

theorem encoded_take {n : Nat} (whole : 8 ≤ n) :
    f.encoded.take n = f.header ++ (utf8 f.text).take (n - 8) := by
  rw [encoded_eq, List.take_append, header_length, List.take_of_length_le (by simpa using whole)]

theorem readFrame_encoded (rest : List UInt8) :
    readFrame (f.encoded ++ rest) = some (f.frame, rest) := by
  have split : f.encoded ++ rest = f.header ++ (utf8 f.text ++ rest) := by
    rw [encoded_eq, List.append_assoc]
  have length : frameLength (f.encoded ++ rest) = (utf8 f.text).length := by
    rw [split, frameLength_append f.header_length, frameLength_header]
  have opcode : frameOpcode (f.encoded ++ rest) = f.opcode := by
    rw [split, frameOpcode_append f.header_length, frameOpcode_header]
  have complete : HasFrame (f.encoded ++ rest) := by
    rw [HasFrame, length, List.length_append, encoded_length]
    omega
  rw [readFrame_eq, if_pos complete, length, opcode, ← encoded_length, List.drop_left, split,
    List.drop_left' f.header_length, List.take_left]
  rfl

theorem decodeNext_encoded (checked : Bool) (rest : List UInt8) :
    decodeNext checked (f.encoded ++ rest) = some ((f.opcode, f.text), rest) := by
  have split : f.encoded ++ rest = f.header ++ (utf8 f.text ++ rest) := by
    rw [encoded_eq, List.append_assoc]
  have length : signedLength (f.encoded ++ rest) = (utf8 f.text).length := by
    rw [split, signedLength_append f.header_length, signedLength_header]
  have opcode : frameOpcode (f.encoded ++ rest) = f.opcode := by
    rw [split, frameOpcode_append f.header_length, frameOpcode_header]
  have size : (f.encoded ++ rest).length = 8 + (utf8 f.text).length + rest.length := by
    rw [List.length_append, encoded_length]
  have text : fromUtf8 (utf8 f.text) = some f.text.toList := fromUtf8_bytes f.text.toList
  have decoded : decode checked (f.encoded ++ rest) = some (some (f.opcode, f.text)) := by
    rw [decode_nonneg checked (by omega) (by omega), if_pos (by omega), length, opcode,
      Int.toNat_natCast, split, List.drop_left' f.header_length, List.take_left, text,
      Option.map_some, String.ofList_toList]
  rw [decodeNext, decoded]
  dsimp only
  rw [← encoded_length, List.drop_left]

theorem encoded_cut (checked : Bool) {n : Nat} (cut : n < f.encoded.length) :
    decode checked (f.encoded.take n) = some none ∧ readFrame (f.encoded.take n) = none := by
  have size : (f.encoded.take n).length = n := by
    rw [List.length_take]
    omega
  rw [encoded_length] at cut
  by_cases whole : 8 ≤ n
  · have part := f.encoded_take whole
    have signed : signedLength (f.encoded.take n) = (utf8 f.text).length := by
      rw [part, signedLength_append f.header_length, signedLength_header]
    have length : frameLength (f.encoded.take n) = (utf8 f.text).length := by
      rw [part, frameLength_append f.header_length, frameLength_header]
    have missing : ¬HasFrame (f.encoded.take n) := by
      rw [HasFrame, length, size]
      omega
    constructor
    · rw [decode_nonneg checked (by omega) (by omega), if_neg (by omega)]
    · rw [readFrame_eq, if_neg missing]
  · have missing : ¬HasFrame (f.encoded.take n) := by
      intro found
      have := found.1
      omega
    constructor
    · exact decode_short checked (by omega)
    · rw [readFrame_eq, if_neg missing]

end TextFrame

theorem streams_round_trip (checked : Bool) (frames : List TextFrame) (trailing : List UInt8) :
    reads readFrame frames.length (frames.flatMap TextFrame.encoded ++ trailing) =
        some (frames.map TextFrame.frame, trailing) ∧
      reads (decodeNext checked) frames.length (frames.flatMap TextFrame.encoded ++ trailing) =
        some (frames.map fun f => (f.opcode, f.text), trailing) ∧
      ∀ (f : TextFrame) (n : Fin f.encoded.length),
        decode checked (f.encoded.take n) = some none ∧ readFrame (f.encoded.take n) = none := by
  refine ⟨?_, ?_, ?_⟩
  · exact reads_flatMap TextFrame.readFrame_encoded frames trailing
  · exact reads_flatMap (fun f rest => f.decodeNext_encoded checked rest) frames trailing
  · intro f n
    exact f.encoded_cut checked n.isLt

end Dirpc
