import OmegaHarness.ByteFraming
import OmegaHarness.DomainHashes

/-!
# Frames on a raft stream

A message travels as its length in four bytes, highest first, and its bytes. Both ends refuse
more than sixteen mebibytes. The reader takes the length, checks it and only then asks for the
bytes. What it leaves on the stream belongs to the next frame.
-/
namespace OmegaHarness.RpcFrames
open FixedWidthBytes ByteFraming DomainHashes

def maxRaftRpcBytes : ℕ := 16*1024*1024

def maxFrameBytes : ℕ := maxRaftRpcBytes

inductive IoErrorKind where
  | invalidData
  | unexpectedEof
  deriving DecidableEq, Repr

structure IoError where
  kind : IoErrorKind
  message : String
  deriving DecidableEq, Repr

def oversized (length : ℕ) : IoError :=
  ⟨.invalidData,s!"frame {length} bytes exceeds max {maxFrameBytes}"⟩

def unexpectedEof : IoError := ⟨.unexpectedEof,"unexpected end of file"⟩

/-- The first bytes of a stream, and what is left of it. -/
def readExact (count : ℕ) (input : Bytes) : Except IoError (Bytes × Bytes) :=
  if input.length < count then .error unexpectedEof else .ok (input.take count,input.drop count)

def readFrame (input : Bytes) : Except IoError (Bytes × Bytes) := do
  let (lenBuf,input) ← readExact 4 input
  let len := ofBeBytes lenBuf
  if len > maxFrameBytes then .error (oversized len) else readExact len input

def writeFrame (bytes : Bytes) : Except IoError Bytes :=
  if bytes.length > maxFrameBytes then .error (oversized bytes.length)
  else if bytes.length ≥ 2^32 then .error ⟨.invalidData,"frame > u32::MAX"⟩
  else .ok (beBytes 4 bytes.length++bytes)

theorem readExact_ok {count : ℕ} {input bytes rest : Bytes} :
    readExact count input = .ok (bytes,rest) ↔ input = bytes++rest ∧ bytes.length = count := by
  rw [readExact]
  split
  · next hshort =>
      simp only [reduceCtorEq,false_iff,not_and]
      rintro rfl hlength
      rw [List.length_append] at hshort
      omega
  · next hlong =>
      rw [Except.ok.injEq,Prod.mk.injEq]
      constructor
      · rintro ⟨rfl,rfl⟩
        exact ⟨(List.take_append_drop _ _).symm,List.length_take_of_le (not_lt.mp hlong)⟩
      · rintro ⟨rfl,rfl⟩
        exact ⟨List.take_left,List.drop_left⟩

theorem readExact_short {count : ℕ} {input : Bytes} (h : input.length < count) :
    readExact count input = .error unexpectedEof := if_pos h

/-- The limit is below what four bytes can count, so the second check of the writer never fails. -/
theorem writeFrame_ok {bytes frame : Bytes} :
    writeFrame bytes = .ok frame ↔ bytes.length ≤ maxFrameBytes ∧ frame = framed 4 bytes := by
  rw [writeFrame]
  split
  · next hlarge => simp [not_le.mpr hlarge]
  · next hsmall =>
      have hfits : ¬bytes.length ≥ 2^32 := by
        rw [maxFrameBytes,maxRaftRpcBytes] at hsmall
        omega
      rw [if_neg hfits,Except.ok.injEq]
      constructor
      · rintro rfl
        exact ⟨not_lt.mp hsmall,rfl⟩
      · rintro ⟨-,rfl⟩
        rfl

theorem readFrame_short {input : Bytes} (h : input.length < 4) :
    readFrame input = .error unexpectedEof := by
  rw [readFrame,readExact_short h]
  rfl

/-- Behind a length the reader checks it and asks for as many bytes. -/
theorem readFrame_header {len : ℕ} (hlen : len < 2^32) (tail : Bytes) :
    readFrame (beBytes 4 len++tail) =
      if len > maxFrameBytes then .error (oversized len) else readExact len tail := by
  have hread : readExact 4 (beBytes 4 len++tail) = .ok (beBytes 4 len,tail) :=
    readExact_ok.mpr ⟨rfl,beBytes_length 4 len⟩
  have hvalue : ofBeBytes (beBytes 4 len) = len := ofBeBytes_beBytes hlen
  rw [readFrame,hread]
  change (if ofBeBytes (beBytes 4 len) > maxFrameBytes then _ else _) = _
  rw [hvalue]

/-- Four bytes are the length of something. -/
theorem exists_header {input : Bytes} (h : 4 ≤ input.length) :
    ∃ len tail, len < 2^32 ∧ input = beBytes 4 len++tail := by
  have hwidth : (input.take 4).length = 4 := List.length_take_of_le h
  refine ⟨ofBeBytes (input.take 4),input.drop 4,?_,?_⟩
  · have hlt := ofBeBytes_lt (input.take 4)
    rw [hwidth] at hlt
    exact hlt
  · have hback := beBytes_ofBeBytes (input.take 4)
    rw [hwidth] at hback
    rw [hback,List.take_append_drop]

theorem readFrame_ok {input bytes rest : Bytes} :
    readFrame input = .ok (bytes,rest) ↔ ∃ frame, writeFrame bytes = .ok frame ∧ input = frame++rest := by
  constructor
  · intro h
    have hlong : 4 ≤ input.length := by
      by_contra hshort
      rw [readFrame_short (not_le.mp hshort)] at h
      cases h
    obtain ⟨len,tail,hlen,rfl⟩ := exists_header hlong
    rw [readFrame_header hlen] at h
    split at h
    · cases h
    · next hsmall =>
        obtain ⟨rfl,rfl⟩ := readExact_ok.mp h
        exact ⟨_,writeFrame_ok.mpr ⟨not_lt.mp hsmall,rfl⟩,(List.append_assoc _ _ _).symm⟩
  · rintro ⟨frame,hwrite,rfl⟩
    obtain ⟨hsmall,rfl⟩ := writeFrame_ok.mp hwrite
    have hlen : bytes.length < 2^32 := by
      rw [maxFrameBytes,maxRaftRpcBytes] at hsmall
      omega
    rw [framed,List.append_assoc,readFrame_header hlen,if_neg (not_lt.mpr hsmall)]
    exact readExact_ok.mpr ⟨rfl,rfl⟩

theorem readFrame_truncated {bytes frame input more : Bytes} (hwrite : writeFrame bytes = .ok frame)
    (hframe : frame = input++more) (hmore : more ≠ []) : readFrame input = .error unexpectedEof := by
  obtain ⟨hsmall,rfl⟩ := writeFrame_ok.mp hwrite
  have htotal := congrArg List.length hframe
  have hmissing := List.length_pos_of_ne_nil hmore
  rw [framed,List.length_append,beBytes_length,List.length_append] at htotal
  by_cases hshort : input.length < 4
  · exact readFrame_short hshort
  · obtain ⟨len,tail,hlen,rfl⟩ := exists_header (not_lt.mp hshort)
    rw [framed,List.append_assoc] at hframe
    have hsplit := List.append_inj hframe (by rw [beBytes_length,beBytes_length])
    have hbound : bytes.length < 256^4 := by
      rw [maxFrameBytes,maxRaftRpcBytes] at hsmall
      omega
    have heq : bytes.length = len := beBytes_inj hbound hlen hsplit.1
    rw [List.length_append,beBytes_length] at htotal
    rw [readFrame_header hlen,if_neg (by omega)]
    exact readExact_short (by omega)

/-- The reader accepts exactly what the writer writes, with anything behind it. It reports a frame
which is cut off as the end of the stream, and reports invalid data exactly for a length above the
limit, whatever follows it. -/
theorem frames_exact (input : Bytes) :
    (∀ bytes rest, readFrame input = .ok (bytes,rest) ↔
      ∃ frame, writeFrame bytes = .ok frame ∧ input = frame++rest) ∧
    (∀ bytes frame more, writeFrame bytes = .ok frame → frame = input++more → more ≠ [] →
      readFrame input = .error unexpectedEof) ∧
    ∀ e, readFrame input = .error e ∧ e.kind = .invalidData ↔
      ∃ len tail, input = beBytes 4 len++tail ∧ maxFrameBytes < len ∧ len < 2^32 ∧
        e = oversized len := by
  refine ⟨fun _ _ => readFrame_ok,fun _ _ _ => readFrame_truncated,?_⟩
  intro e
  constructor
  · rintro ⟨h,hkind⟩
    by_cases hshort : input.length < 4
    · rw [readFrame_short hshort] at h
      cases h
      cases hkind
    · obtain ⟨len,tail,hlen,rfl⟩ := exists_header (not_lt.mp hshort)
      rw [readFrame_header hlen] at h
      split at h
      · next hlarge =>
          cases h
          exact ⟨len,tail,rfl,hlarge,hlen,rfl⟩
      · rw [readExact] at h
        split at h
        · cases h
          cases hkind
        · cases h
  · rintro ⟨len,tail,rfl,hlarge,hlen,rfl⟩
    rw [readFrame_header hlen,if_pos hlarge]
    exact ⟨rfl,rfl⟩

end OmegaHarness.RpcFrames
