import Lzip.Crc32
import Lzip.Trailer

/-! `LZ_decoder` (decoder.h, decoder.cc): the circular dictionary of `dictionary_size` bytes
with its write position `pos`, the start `stream_pos` of the bytes not yet flushed, the
wrap flag and the CRC of the flushed bytes; `flush_data`, `check_trailer`, and the loop of
`decode_member`.

The range decoder is an oracle: each pass of the loop receives the symbol the range
decoder yields (`Symbol`), so the model covers every sequence of symbols, whatever the
probability models hold. decoder.h is not among the sources; the constructor, `put_byte`,
`peek` and `copy_block` are modelled from the spec. -/
namespace Lzip

/-- The decoder's dictionary and output. `out` is what `flush_data` has passed to
`writeblock` so far. -/
structure LzDecoder where
  dictionary_size : Nat
  buffer : Nat → UInt8
  pos : Nat
  stream_pos : Nat
  partial_data_pos : Nat
  crc : BitVec 32
  pos_wrapped : Bool
  out : List UInt8

namespace LzDecoder

/-- Modelled from the spec: the constructor. Of the new buffer only the last cell is set,
to the 0 that stands before the first byte. -/
def init (dictionary_size : Nat) (buffer : Nat → UInt8) : LzDecoder where
  dictionary_size := dictionary_size
  buffer := Function.update buffer (dictionary_size - 1) 0
  pos := 0
  stream_pos := 0
  partial_data_pos := 0
  crc := 0xFFFFFFFF#32
  pos_wrapped := false
  out := []

/-- Modelled from the spec: `data_position()`, the bytes decoded so far. -/
def dataPosition (d : LzDecoder) : Nat := d.partial_data_pos + d.pos

/-- Modelled from the spec: `crc()`, the register complemented. -/
def crcValue (d : LzDecoder) : Nat := (d.crc ^^^ 0xFFFFFFFF#32).toNat

def chunk (d : LzDecoder) (lo hi : Nat) : List UInt8 :=
  (List.range (hi - lo)).map fun k => d.buffer (lo + k)

/-- `flush_data`: pass `buffer[stream_pos..pos)` to the CRC and to `writeblock`; at the end
of the buffer move `pos` back to 0 and set `pos_wrapped`. -/
def flushData (d : LzDecoder) : LzDecoder :=
  if d.pos > d.stream_pos then
    let data := d.chunk d.stream_pos d.pos
    let d := { d with crc := CRC32.updateBuf d.crc data, out := d.out ++ data }
    let d :=
      if d.pos ≥ d.dictionary_size then
        { d with partial_data_pos := d.partial_data_pos + d.pos, pos := 0, pos_wrapped := true }
      else d
    { d with stream_pos := d.pos }
  else d

/-- Modelled from the spec: `put_byte` stores the byte at `pos`, advances `pos`, and calls
`flush_data` when `pos` reaches the end of the buffer. -/
def putByte (d : LzDecoder) (b : UInt8) : LzDecoder :=
  let d := { d with buffer := Function.update d.buffer d.pos b, pos := d.pos + 1 }
  if d.pos ≥ d.dictionary_size then d.flushData else d

@[simp] theorem flushData_dictionary_size (d : LzDecoder) :
    d.flushData.dictionary_size = d.dictionary_size := by
  unfold flushData; dsimp only; split_ifs <;> rfl

@[simp] theorem putByte_dictionary_size (d : LzDecoder) (b : UInt8) :
    (d.putByte b).dictionary_size = d.dictionary_size := by
  unfold putByte; dsimp only; split_ifs <;> simp

/-- Modelled from the spec: `peek( distance )`, the byte `distance + 1` places behind `pos`
in the circular buffer. -/
def peek (d : LzDecoder) (distance : Nat) : UInt8 :=
  d.buffer ((if d.pos > distance then 0 else d.dictionary_size) + d.pos - distance - 1)

/-- Modelled from the spec: `copy_block( distance, len )` copies `len` bytes from
`distance + 1` places behind the write head, one byte at a time. -/
def copyBlock (d : LzDecoder) (distance : Nat) : Nat → LzDecoder
  | 0 => d
  | len + 1 => (d.putByte (d.peek distance)).copyBlock distance len

/-- Modelled from the spec: `rdec.read_data( trailer.data, trailer.size )` on the bytes `data`
left in the input, with the zeros `check_trailer` pads a short read with: the count read and
the trailer. -/
def readTrailer (data : List UInt8) : Nat × LzipTrailer :=
  let size := min data.length 20
  (size, ⟨fun k => if k.val < size then data.getD k 0 else 0⟩)

/-- `check_trailer`: `data` is what remains of the input, and `member_size` is
`rdec.member_position()`. 3 on a short read or any mismatch, 5 for an empty member unless
`ignore_empty`, else 0. -/
def checkTrailer (d : LzDecoder) (ignore_empty : Bool) (data : List UInt8)
    (member_size : Nat) : Nat :=
  let (size, trailer) := readTrailer data
  let error := decide (size < 20) || trailer.dataCrc != d.crcValue ||
    trailer.dataSize != d.dataPosition || trailer.memberSize != member_size
  if error then 3 else if !ignore_empty && d.dataPosition == 0 then 5 else 0

end LzDecoder

/-- What one pass of the loop of `decode_member` decodes. -/
inductive Symbol
  -- First bit 0: a literal. The range decoder yields the byte; a matched literal is decoded against
  -- the match byte `peek( rep0 )`.
  | literal (byte : Option UInt8 → UInt8)
  -- Bits 1, 1, 0, 0: a short rep, one byte at distance `rep0`.
  | shortRep
  -- Bits 1, 1, 0, 1, then a length: a repeated match at distance `rep0`.
  | rep0 (len : Nat)
  -- Bits 1, 1, 1, 0, then a length: distance `rep1`.
  | rep1 (len : Nat)
  -- Bits 1, 1, 1, 1, 0, then a length: distance `rep2`.
  | rep2 (len : Nat)
  -- Bits 1, 1, 1, 1, 1, then a length: distance `rep3`.
  | rep3 (len : Nat)
  -- Bits 1, 0: a length, a distance slot, and the raw values of the distance's low bits (the
  -- reversed tree of the middle slots, or the direct bits and the align tree of the top slots).
  | fresh (len : Nat) (dis_slot : Fin 64) (low direct align : Nat)

/-- The distance of a fresh match in `unsigned` arithmetic; `none` for a marker (distance
`0xFFFFFFFF`, tested in the branch of the top slots). -/
def decodeDistance (dis_slot : Fin 64) (low direct align : Nat) : Option Nat :=
  if dis_slot.val < startDisModel then some dis_slot.val
  else
    let direct_bits := (dis_slot.val >>> 1) - 1
    let distance := (2 ||| (dis_slot.val &&& 1)) <<< direct_bits
    if dis_slot.val < endDisModel then some ((distance + low) % 2 ^ 32)
    else
      let distance := (distance + (direct <<< disAlignBits) + align) % 2 ^ 32
      if distance = 0xFFFFFFFF then none else some distance

/-- The variables of `decode_member`'s loop. -/
structure DecodeState where
  dec : LzDecoder
  rep0 : Nat
  rep1 : Nat
  rep2 : Nat
  rep3 : Nat
  state : State

/-- How a pass of the loop ends. -/
inductive Step
  | next (s : DecodeState)
  -- The End-Of-Stream marker, after its flush: `check_trailer` gives the result.
  | eos (s : DecodeState)
  -- `return code`.
  | stop (code : Nat) (s : DecodeState)

namespace DecodeState

/-- The loop's variables on entry: the decoder, the four distances 0 and the initial state. -/
def start (d : LzDecoder) : DecodeState := ⟨d, 0, 0, 0, 0, State.init⟩

/-- One pass of the body of `while( !rdec.finished() )`. -/
def step (s : DecodeState) : Symbol → Step
  | .literal byte =>
    let (plain, state) := s.state.isCharSetChar
    let b := byte (if plain then none else some (s.dec.peek s.rep0))
    .next { s with dec := s.dec.putByte b, state := state }
  | .shortRep =>
    .next { s with state := s.state.setShortRep, dec := s.dec.putByte (s.dec.peek s.rep0) }
  | .rep0 len => .next { s with state := s.state.setRep, dec := s.dec.copyBlock s.rep0 len }
  | .rep1 len =>
    .next { s with rep1 := s.rep0, rep0 := s.rep1, state := s.state.setRep,
                   dec := s.dec.copyBlock s.rep1 len }
  | .rep2 len =>
    .next { s with rep2 := s.rep1, rep1 := s.rep0, rep0 := s.rep2, state := s.state.setRep,
                   dec := s.dec.copyBlock s.rep2 len }
  | .rep3 len =>
    .next { s with rep3 := s.rep2, rep2 := s.rep1, rep1 := s.rep0, rep0 := s.rep3,
                   state := s.state.setRep, dec := s.dec.copyBlock s.rep3 len }
  | .fresh len dis_slot low direct align =>
    match decodeDistance dis_slot low direct align with
    | none =>
      let s := { s with dec := s.dec.flushData }
      if len = minMatchLen then .eos s
      else if len = minMatchLen + 1 then .next s
      else .stop 4 s
    | some distance =>
      let s := { s with rep3 := s.rep2, rep2 := s.rep1, rep1 := s.rep0, rep0 := distance,
                        state := s.state.setMatch }
      if distance ≥ s.dec.dictionary_size ∨ (distance ≥ s.dec.pos ∧ s.dec.pos_wrapped = false) then
        .stop 1 { s with dec := s.dec.flushData }
      else .next { s with dec := s.dec.copyBlock distance len }

end DecodeState

/-- How the loop ends. -/
inductive Exit
  | eos (s : DecodeState)
  | stop (code : Nat) (s : DecodeState)

/-- The loop of `decode_member` over the symbols decoded before `rdec.finished()`; when they
run out, `flush_data(); return 2;`. -/
def decodeLoop (s : DecodeState) : List Symbol → Exit
  | [] => .stop 2 { s with dec := s.dec.flushData }
  | sym :: syms =>
    match s.step sym with
    | .next s' => decodeLoop s' syms
    | .eos s' => .eos s'
    | .stop code s' => .stop code s'

/-- What the range decoder yields for one member: whether `rdec.load` accepts the start of
the member (its marking byte), the symbols the loop decodes, and for the trailer the bytes
`read_data` returns and the member position. -/
structure RangeInput where
  loaded : Bool
  symbols : List Symbol
  trailer : List UInt8
  member_position : Nat

/-- `decode_member`: the result code and the decoder it leaves. -/
def decodeMember (opts : ClOptions) (d : LzDecoder) (rin : RangeInput) : Nat × LzDecoder :=
  if !rin.loaded then (6, d)
  else
    match decodeLoop (.start d) rin.symbols with
    | .eos s => (s.dec.checkTrailer opts.ignoreEmpty rin.trailer rin.member_position, s.dec)
    | .stop code s => (code, s.dec)

end Lzip
