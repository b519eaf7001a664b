import CameraBoard.Esp
import CameraBoard.General.Bytes

/-! The header of a WAV file with one data chunk, its 44 bytes on a
little-endian machine and what makes header and data a WAV file. -/
namespace CameraBoard
open Bytes

structure DescriptorChunk where
  chunkId : Vector Byte 4
  chunkSize : BitVec 32
  chunkFormat : Vector Byte 4
  deriving DecidableEq

structure FmtChunk where
  subchunkId : Vector Byte 4
  subchunkSize : BitVec 32
  audioFormat : BitVec 16
  numOfChannels : BitVec 16
  sampleRate : BitVec 32
  byteRate : BitVec 32
  blockAlign : BitVec 16
  bitsPerSample : BitVec 16
  deriving DecidableEq

structure DataChunk where
  subchunkId : Vector Byte 4
  subchunkSize : BitVec 32
  deriving DecidableEq

structure WavHeader where
  descriptorChunk : DescriptorChunk
  fmtChunk : FmtChunk
  dataChunk : DataChunk
  deriving DecidableEq

namespace WavHeader

def riff : Vector Byte 4 := #v[0x52, 0x49, 0x46, 0x46]
def wave : Vector Byte 4 := #v[0x57, 0x41, 0x56, 0x45]
def fmt : Vector Byte 4 := #v[0x66, 0x6d, 0x74, 0x20]
def data : Vector Byte 4 := #v[0x64, 0x61, 0x74, 0x61]

/-- `sizeof(wav_header_t)`. -/
def size : Nat := 44

def pcmDefault (wavSampleSize : BitVec 32) (wavSampleBits wavSampleRate wavChannelNum : Nat) :
    WavHeader where
  descriptorChunk := ⟨riff, wavSampleSize + BitVec.ofNat 32 size - 8, wave⟩
  fmtChunk :=
    { subchunkId := fmt
      subchunkSize := 16
      audioFormat := 1
      numOfChannels := BitVec.ofNat 16 wavChannelNum
      sampleRate := BitVec.ofNat 32 wavSampleRate
      byteRate := BitVec.ofNat 32 (wavSampleBits * wavSampleRate * wavChannelNum / 8)
      blockAlign := BitVec.ofNat 16 (wavSampleBits * wavChannelNum / 8)
      bitsPerSample := BitVec.ofNat 16 wavSampleBits }
  dataChunk := ⟨data, wavSampleSize⟩

/-- The header as it lies in memory, every field at its natural offset. -/
def toBytes (h : WavHeader) : List Byte :=
  h.descriptorChunk.chunkId.toList ++ littleEndian 4 h.descriptorChunk.chunkSize ++
    h.descriptorChunk.chunkFormat.toList ++
  h.fmtChunk.subchunkId.toList ++ littleEndian 4 h.fmtChunk.subchunkSize ++
    littleEndian 2 h.fmtChunk.audioFormat ++ littleEndian 2 h.fmtChunk.numOfChannels ++
    littleEndian 4 h.fmtChunk.sampleRate ++ littleEndian 4 h.fmtChunk.byteRate ++
    littleEndian 2 h.fmtChunk.blockAlign ++ littleEndian 2 h.fmtChunk.bitsPerSample ++
  h.dataChunk.subchunkId.toList ++ littleEndian 4 h.dataChunk.subchunkSize

@[simp] theorem length_toBytes (h : WavHeader) : h.toBytes.length = size := by
  simp [toBytes, size]

theorem drop_toBytes (h : WavHeader) :
    h.toBytes.drop 40 = littleEndian 4 h.dataChunk.subchunkSize := by
  rw [toBytes]
  exact List.drop_left' (by simp)

theorem subchunkSize_of_toBytes {h h' : WavHeader} (same : h.toBytes = h'.toBytes) :
    h.dataChunk.subchunkSize = h'.dataChunk.subchunkSize := by
  have tails := congrArg (List.drop 40) same
  rw [drop_toBytes, drop_toBytes] at tails
  exact @littleEndian_injective 4 _ _ tails

/-- The ids and the derived fields of a PCM header. -/
structure WellFormed (h : WavHeader) : Prop where
  riff : h.descriptorChunk.chunkId = riff
  wave : h.descriptorChunk.chunkFormat = wave
  fmt : h.fmtChunk.subchunkId = fmt
  data : h.dataChunk.subchunkId = data
  pcm : h.fmtChunk.subchunkSize = 16 ∧ h.fmtChunk.audioFormat = 1
  blockAlign : h.fmtChunk.blockAlign.toNat * 8 =
    h.fmtChunk.numOfChannels.toNat * h.fmtChunk.bitsPerSample.toNat
  byteRate : h.fmtChunk.byteRate.toNat =
    h.fmtChunk.sampleRate.toNat * h.fmtChunk.blockAlign.toNat

/-- The file is a header followed by the data, and the header tells the number
of data bytes and the length of what follows the first eight bytes. -/
def IsWav (file data : List Byte) : Prop :=
  ∃ h : WavHeader, h.WellFormed ∧ file = h.toBytes ++ data ∧
    h.dataChunk.subchunkSize.toNat = data.length ∧
    h.descriptorChunk.chunkSize.toNat + 8 = file.length

/-- A header whose two sizes agree makes a WAV file of the data exactly when
it promises as many bytes as there are. -/
theorem isWav_iff {h : WavHeader} (wf : h.WellFormed)
    (sizes : h.descriptorChunk.chunkSize.toNat + 8 = size + h.dataChunk.subchunkSize.toNat)
    (data : List Byte) :
    IsWav (h.toBytes ++ data) data ↔ h.dataChunk.subchunkSize.toNat = data.length := by
  constructor
  · rintro ⟨h', -, file, promised, -⟩
    rw [subchunkSize_of_toBytes (List.append_cancel_right file)]
    exact promised
  · intro promised
    refine ⟨h, wf, rfl, promised, ?_⟩
    rw [sizes, List.length_append, length_toBytes, promised]

end WavHeader

end CameraBoard
