import MetriEngine.Storage.Decoders

/-!
# Hot heads and envelopes come back

The file of a hot head: a header, the number of its frames, the frames one after the other with
their payloads compressed and masked, zeros up to a multiple of 64, and a footer. What is written
is read back as long as the number of frames fits its field; an envelope gives its payload back
whatever the length.
-/
namespace MetriEngine.Storage.Decoders
open Foundation Envelope Tx

/-! ### What is written -/

section Written
variable [WireFormats]

omit [WireFormats] in
def signatureBytes (s : TxConflictSignature) : List Byte :=
  leBytes 8 s.baseEpochId ++ (leBytes 8 s.newEpochId ++ (leBytes 8 s.readSetBloom.toNat ++
    leBytes 8 s.writeSetBloom.toNat))

omit [WireFormats] in
/-- The mask of a frame on disk. -/
def mask (bytes : List Byte) : List Byte :=
  bytes.zipIdx.map fun e => e.1 ^^^ 0xA5 ^^^ Fin.ofNat 256 (e.2 * 31)

def maskedPayload (frame : CommittedDeltaFrame) : List Byte :=
  mask (WireFormats.compress (utf8 frame.payloadJson))

def frameBytes (frame : CommittedDeltaFrame) : List Byte :=
  signatureBytes frame.signature ++ (leBytes 4 ((maskedPayload frame).length % 2 ^ 32) ++
    maskedPayload frame)

/-- A frame of machine words, with a payload that LZ4 gives back in fewer than `2 ^ 32` bytes. -/
structure FrameFits (frame : CommittedDeltaFrame) : Prop where
  baseEpochId : frame.signature.baseEpochId < 2 ^ 64
  newEpochId : frame.signature.newEpochId < 2 ^ 64
  compressed : (WireFormats.compress (utf8 frame.payloadJson)).length < 2 ^ 32
  decompress : WireFormats.decompress (WireFormats.compress (utf8 frame.payloadJson)) =
    .ok (utf8 frame.payloadJson)

/-! ### Frames -/

omit [WireFormats] in
@[simp] theorem mask_length (bytes : List Byte) : (mask bytes).length = bytes.length := by
  simp [mask]

omit [WireFormats] in
theorem xor_twice (b m k : Byte) : b ^^^ m ^^^ k ^^^ m ^^^ k = b := by
  apply Fin.ext
  have hval (x y : Byte) : (x ^^^ y).val = x.val ^^^ y.val := Fin.xor_val_of_two_pow (w := 8) x y
  rw [hval, hval, hval, hval, Nat.xor_assoc _ k.val, Nat.xor_comm k.val, ← Nat.xor_assoc,
    Nat.xor_assoc b.val, Nat.xor_self, Nat.xor_zero, Nat.xor_assoc, Nat.xor_self, Nat.xor_zero]

omit [WireFormats] in
/-- The mask taken off gives the bytes back. -/
theorem unmask_mask (bytes : List Byte) : unmask (mask bytes) = bytes := by
  apply List.ext_getElem
  · simp [unmask]
  · intro i h₁ h₂
    simp only [unmask, mask, List.getElem_map, List.getElem_zipIdx, Nat.zero_add]
    exact xor_twice _ _ _

omit [WireFormats] in
theorem signatureBytes_length (s : TxConflictSignature) : (signatureBytes s).length = 32 := by
  simp [signatureBytes]

omit [WireFormats] in
theorem readSignature_signatureBytes {s : TxConflictSignature} (hbase : s.baseEpochId < 2 ^ 64)
    (hnew : s.newEpochId < 2 ^ 64) : readSignature (signatureBytes s) = s := by
  have hread := s.readSetBloom.isLt
  have hwrite := s.writeSetBloom.isLt
  have h0 : leAt (signatureBytes s) 0 8 = s.baseEpochId := leAt_here _ (by omega)
  have h8 : leAt (signatureBytes s) 8 8 = s.newEpochId :=
    leAt_after _ (leBytes_length _ _) (by omega)
  have h16 : leAt (signatureBytes s) 16 8 = s.readSetBloom.toNat := by
    rw [signatureBytes, ← List.append_assoc]
    exact leAt_after _ (by simp) (by omega)
  have h24 : leAt (signatureBytes s) 24 8 = s.writeSetBloom.toNat := by
    rw [signatureBytes, ← List.append_assoc, ← List.append_assoc,
      ← List.append_nil (leBytes 8 s.writeSetBloom.toNat)]
    exact leAt_after _ (by simp) (by omega)
  rw [readSignature, h0, h8, h16, h24, BitVec.ofNat_toNat, BitVec.ofNat_toNat, BitVec.setWidth_eq,
    BitVec.setWidth_eq]

theorem frameBytes_length {frame : CommittedDeltaFrame} :
    (frameBytes frame).length = 36 + (maskedPayload frame).length := by
  rw [frameBytes, List.length_append, List.length_append, signatureBytes_length, leBytes_length]
  omega

/-- The frames that are counted are read where they stand. -/
theorem readFrames_flatMap {bytes : List Byte} {payloadEnd : ℕ} (hend : payloadEnd ≤ bytes.length)
    (hbytes : bytes.length < 2 ^ 63) {count offset : ℕ} {frames : List CommittedDeltaFrame}
    (hfits : ∀ f ∈ frames, FrameFits f) (hcount : count ≤ frames.length) {tail : List Byte}
    (hdrop : bytes.drop offset = frames.flatMap frameBytes ++ tail)
    (hoffset : offset + (frames.flatMap frameBytes).length ≤ payloadEnd) :
    readFrames bytes payloadEnd count offset = .ok (frames.take count) := by
  induction count generalizing offset frames with
  | zero => rfl
  | succ count ih =>
    cases frames with
    | nil => cases hcount
    | cons f frames =>
      have hf := hfits f List.mem_cons_self
      have hlength := @frameBytes_length _ f
      have hmasked : (maskedPayload f).length < 2 ^ 32 := by
        rw [maskedPayload, mask_length]
        exact hf.compressed
      rw [List.flatMap_cons, List.length_append] at hoffset
      rw [List.flatMap_cons, List.append_assoc] at hdrop
      have hsig : (bytes.drop offset).take 32 = signatureBytes f.signature := by
        rw [hdrop, frameBytes, List.append_assoc, List.take_left' (signatureBytes_length _)]
      have hlen : (bytes.drop (offset + 32)).take 4 = leBytes 4 (maskedPayload f).length := by
        rw [← List.drop_drop, hdrop, frameBytes, List.append_assoc,
          List.drop_left' (signatureBytes_length _), List.append_assoc,
          List.take_left' (leBytes_length _ _), Nat.mod_eq_of_lt hmasked]
      have hpayload : (bytes.drop (offset + 32 + 4)).take (maskedPayload f).length =
          maskedPayload f := by
        rw [← List.drop_drop, ← List.drop_drop, hdrop, frameBytes, List.append_assoc,
          List.drop_left' (signatureBytes_length _), List.append_assoc,
          List.drop_left' (leBytes_length _ _), List.take_left' rfl]
      have hnext : bytes.drop (offset + 32 + 4 + (maskedPayload f).length) =
          frames.flatMap frameBytes ++ tail := by
        have hsum : offset + 32 + 4 + (maskedPayload f).length =
            offset + (frameBytes f).length := by omega
        rw [hsum, ← List.drop_drop, hdrop, List.drop_left' rfl]
      have hle : ofBeBytes (leBytes 4 (maskedPayload f).length).reverse =
          (maskedPayload f).length := by
        rw [leBytes, List.reverse_reverse, ofBeBytes_beBytes (by omega)]
      have hrest := ih (fun u hu => hfits u (List.mem_cons_of_mem f hu))
        (Nat.le_of_succ_le_succ hcount) hnext (by omega)
      unfold readFrames
      rw [usizeAdd_eq (by omega), ok_bind, failIf_bind, if_neg (by omega), usizeAdd_eq (by omega),
        ok_bind, slice_eq (by omega) (by omega), ok_bind, usizeAdd_eq (by omega), ok_bind,
        slice_eq (by omega) (by omega), ok_bind, Nat.add_sub_cancel_left, Nat.add_sub_cancel_left,
        hsig, hlen, hle, usizeAdd_eq (by omega), ok_bind, failIf_bind, if_neg (by omega),
        slice_eq (by omega) (by omega), ok_bind, Nat.add_sub_cancel_left, hpayload, maskedPayload,
        unmask_mask, hf.decompress]
      dsimp only
      rw [fromUtf8_utf8]
      dsimp only
      rw [← maskedPayload, hrest, readSignature_signatureBytes hf.baseEpochId hf.newEpochId]
      rfl

end Written

/-! ### The file of a hot head -/

section Files
variable [FileDigests] [WireFormats] [SealDigests]

/-- What the file of a cell is written with. -/
structure HotHeadCall where
  tenantId : String
  cellId : ℕ
  nowMs : ℤ

namespace HotHeadCall
variable (cfg : EngineConfig) (call : HotHeadCall) (frames : List CommittedDeltaFrame)

omit [FileDigests] [WireFormats] [SealDigests] in
def lastEpoch : ℕ := (frames.getLast?.map fun f => f.signature.newEpochId).getD 0

def tenantHash : ℕ := (FileDigests.xxh64 (utf8 call.tenantId) 0x4D45545249323032).val

def header : MbfHeader :=
  (MbfHeader.new call.cellId frames.length (lastEpoch frames) call.tenantHash call.nowMs
    call.nowMs).withFlags 1

/-- The file up to its footer. -/
def body : List Byte :=
  MbfPartitionWireSnapshot.padTo64 ((call.header frames).toBytes ++
    (leBytes 4 (frames.length % 2 ^ 32) ++ (leBytes 4 0 ++ frames.flatMap frameBytes)))

def footer : MbfFooterTrailer where
  directoryOffset := 64
  directoryLen := ((call.body frames).length - 64) % 2 ^ 32
  headerCrc32c := (FileDigests.crc32 ((call.body frames).take 64)).val
  directoryCrc32c := (FileDigests.crc32 ((call.body frames).drop 64)).val
  schemaFingerprintHi := call.tenantHash % 2 ^ 32
  fiscalLockEpochMs := 0
  hmacTagTruncated :=
    (MbfTenantCryptoSeal.sealActive cfg call.tenantId "hot_head" (lastEpoch frames)
      ((call.body frames).drop 64)).keyedMac.take 24
  footerMagic := mbfFooterMagic

/-- `CommittedDeltaFrame::encode_hot_head_binary` -/
def encodeHotHeadBinary : List Byte := call.body frames ++ (call.footer cfg frames).toBytes

variable {cfg call frames}

omit [WireFormats] [SealDigests] in
theorem header_length : (call.header frames).toBytes.length = 64 := by
  have hmagic : (call.header frames).magic.length = 8 := rfl
  have hhash : (call.header frames).tenantHash.length = 16 := by
    change (leBytes 8 _ ++ leBytes 8 _).length = 16
    rw [List.length_append, leBytes_length, leBytes_length]
  simp only [MbfHeader.toBytes, writeI64, List.length_append, leBytes_length, hmagic, hhash]

omit [SealDigests] in
/-- The body is the header, the count, the frames and zeros. -/
theorem exists_body : ∃ zeros, call.body frames = (call.header frames).toBytes ++
    (leBytes 4 (frames.length % 2 ^ 32) ++ (leBytes 4 0 ++
      (frames.flatMap frameBytes ++ zeros))) := by
  rw [body, MbfPartitionWireSnapshot.padTo64]
  generalize hzeros : List.replicate _ (0 : Byte) = zeros
  exact ⟨zeros, by simp only [List.append_assoc]⟩

omit [SealDigests] in
theorem body_length : (call.body frames).length % 64 = 0 ∧
    72 + (frames.flatMap frameBytes).length ≤ (call.body frames).length ∧
    (call.body frames).length ≤ 135 + (frames.flatMap frameBytes).length := by
  have hlength : ((call.header frames).toBytes ++ (leBytes 4 (frames.length % 2 ^ 32) ++
      (leBytes 4 0 ++ frames.flatMap frameBytes))).length =
        72 + (frames.flatMap frameBytes).length := by
    simp only [List.length_append, header_length, leBytes_length]
    omega
  rw [body, EnvelopeCall.padTo64_length, hlength]
  refine ⟨?_, ?_, ?_⟩ <;> split <;> omega

omit [SealDigests] in
theorem take_body : (call.body frames).take 64 = (call.header frames).toBytes := by
  obtain ⟨zeros, hbody⟩ := @exists_body _ _ call frames
  rw [hbody, List.take_left' header_length]

theorem footer_fits (h : EnvelopeCall.Digests32) : (call.footer cfg frames).Fits where
  directoryOffset := by
    change 64 < 2 ^ 64
    norm_num
  directoryLen := Nat.mod_lt _ (by norm_num)
  headerCrc32c := (FileDigests.crc32 _).isLt
  directoryCrc32c := (FileDigests.crc32 _).isLt
  schemaFingerprintHi := Nat.mod_lt _ (by norm_num)
  fiscalLockEpochMs := ⟨by norm_num [footer], by norm_num [footer]⟩
  hmacTagTruncated := by
    change (List.take 24 (SealDigests.hmacSha256 _ _)).length = 24
    rw [List.length_take, h.hmacSha256]
    rfl
  footerMagic := rfl

theorem footer_length (h : EnvelopeCall.Digests32) :
    (call.footer cfg frames).toBytes.length = 64 := by
  have htag := (@footer_fits _ _ _ cfg call frames h).hmacTagTruncated
  have hmagic : (call.footer cfg frames).footerMagic.length = 8 := rfl
  simp only [MbfFooterTrailer.toBytes, writeI64, List.length_append, leBytes_length, htag, hmagic]

theorem footer_end (h : EnvelopeCall.Digests32) :
    (call.footer cfg frames).toBytes.drop 56 = mbfFooterMagic := by
  have htag := (@footer_fits _ _ _ cfg call frames h).hmacTagTruncated
  have hfront : (leBytes 8 (call.footer cfg frames).directoryOffset ++
      (leBytes 4 (call.footer cfg frames).directoryLen ++
        (leBytes 4 (call.footer cfg frames).headerCrc32c ++
          (leBytes 4 (call.footer cfg frames).directoryCrc32c ++
            (leBytes 4 (call.footer cfg frames).schemaFingerprintHi ++
              (writeI64 (call.footer cfg frames).fiscalLockEpochMs ++
                (call.footer cfg frames).hmacTagTruncated)))))).length = 56 := by
    simp [writeI64, htag]
  have hsplit : (call.footer cfg frames).toBytes = (leBytes 8 (call.footer cfg frames).directoryOffset ++
      (leBytes 4 (call.footer cfg frames).directoryLen ++
        (leBytes 4 (call.footer cfg frames).headerCrc32c ++
          (leBytes 4 (call.footer cfg frames).directoryCrc32c ++
            (leBytes 4 (call.footer cfg frames).schemaFingerprintHi ++
              (writeI64 (call.footer cfg frames).fiscalLockEpochMs ++
                (call.footer cfg frames).hmacTagTruncated)))))) ++ mbfFooterMagic := by
    simp only [MbfFooterTrailer.toBytes, List.append_assoc]
    rfl
  rw [hsplit, List.drop_left' hfront]

/-- The frames that the count in the file says are read back. -/
theorem decode_encode (h : EnvelopeCall.Digests32) (hfits : ∀ f ∈ frames, FrameFits f)
    (hsize : (call.encodeHotHeadBinary cfg frames).length < 2 ^ 63) :
    decodeHotHeadBinary (call.encodeHotHeadBinary cfg frames) =
      .ok (frames.take (frames.length % 2 ^ 32)) := by
  obtain ⟨haligned, hroom, -⟩ := @body_length _ _ call frames
  obtain ⟨zeros, hbody⟩ := @exists_body _ _ call frames
  have hfooter := @footer_length _ _ _ cfg call frames h
  have hlength : (call.encodeHotHeadBinary cfg frames).length =
      (call.body frames).length + 64 := by
    rw [encodeHotHeadBinary, List.length_append, hfooter]
  have hheader : (call.encodeHotHeadBinary cfg frames).take 64 = (call.header frames).toBytes := by
    rw [encodeHotHeadBinary, List.take_append_of_le_length (by omega), take_body]
  have hfront : (call.encodeHotHeadBinary cfg frames).take 8 = mbfMagic := by
    have hcut := congrArg (List.take 8) hheader
    rw [List.take_take, min_eq_left (by norm_num)] at hcut
    rw [hcut]
    exact List.take_left' rfl
  have htail : (call.encodeHotHeadBinary cfg frames).drop (call.body frames).length =
      (call.footer cfg frames).toBytes := List.drop_left' rfl
  have hback : (call.encodeHotHeadBinary cfg frames).drop ((call.body frames).length + 56) =
      mbfFooterMagic := by
    rw [← List.drop_drop, htail, footer_end h]
  have hread := MbfFooterTrailer.read_toBytes (@footer_fits _ _ _ cfg call frames h)
  have hcount : ((call.encodeHotHeadBinary cfg frames).drop 64).take 4 =
      leBytes 4 (frames.length % 2 ^ 32) := by
    rw [encodeHotHeadBinary, hbody, List.append_assoc, List.drop_left' header_length,
      List.append_assoc, List.take_left' (leBytes_length _ _)]
  have hframes : (call.encodeHotHeadBinary cfg frames).drop 72 =
      frames.flatMap frameBytes ++ (zeros ++ (call.footer cfg frames).toBytes) := by
    have hsum : 72 = 64 + 4 + 4 := rfl
    rw [encodeHotHeadBinary, hbody, List.append_assoc, hsum, ← List.drop_drop, ← List.drop_drop,
      List.drop_left' header_length, List.append_assoc, List.drop_left' (leBytes_length _ _),
      List.append_assoc, List.drop_left' (leBytes_length _ _), List.append_assoc]
  have hle : ofBeBytes (leBytes 4 (frames.length % 2 ^ 32)).reverse = frames.length % 2 ^ 32 := by
    rw [leBytes, List.reverse_reverse, ofBeBytes_beBytes (by omega)]
  unfold decodeHotHeadBinary
  rw [failIf_bind, if_neg (by omega), slice_eq (by omega) (by omega), ok_bind,
    slice_eq (by omega) le_rfl, ok_bind, failIf_bind]
  have hmagics : ¬ ((List.drop 0 (call.encodeHotHeadBinary cfg frames)).take (8 - 0) ≠ mbfMagic ∨
      ((call.encodeHotHeadBinary cfg frames).drop
        ((call.encodeHotHeadBinary cfg frames).length - 8)).take
          ((call.encodeHotHeadBinary cfg frames).length -
            ((call.encodeHotHeadBinary cfg frames).length - 8)) ≠ mbfFooterMagic) := by
    have hend : (call.encodeHotHeadBinary cfg frames).length - 8 =
        (call.body frames).length + 56 := by omega
    have hwidth : (call.encodeHotHeadBinary cfg frames).length -
        ((call.body frames).length + 56) = 8 := by omega
    have hshort : mbfFooterMagic.take 8 = mbfFooterMagic := rfl
    rw [List.drop_zero, Nat.sub_zero, hfront, hend, hback, hwidth, hshort]
    simp
  have hmagic : ¬ (call.footer cfg frames).footerMagic ≠ mbfFooterMagic := not_not.mpr rfl
  have hfooterAt : (call.encodeHotHeadBinary cfg frames).length - 64 =
      (call.body frames).length := by omega
  rw [if_neg hmagics, slice_eq (by omega) le_rfl, ok_bind, hfooterAt, htail,
    List.take_of_length_le (by omega), footer_fromBytes hfooter, hread, if_neg hmagic, within_ok, ok_bind, slice_eq (by omega) (by omega), ok_bind,
    failIf_bind]
  have hcrc : ¬ (call.footer cfg frames).headerCrc32c ≠
      (FileDigests.crc32 ((List.drop 0 (call.encodeHotHeadBinary cfg frames)).take (64 - 0))).val := by
    rw [List.drop_zero, Nat.sub_zero, hheader, not_not]
    change (FileDigests.crc32 ((call.body frames).take 64)).val = _
    rw [take_body]
  rw [if_neg hcrc, usizeAdd_eq (by norm_num), ok_bind]
  dsimp only
  rw [if_neg (by omega), slice_eq (by omega) (by omega), ok_bind]
  change readFrames _ _ (ofBeBytes (((call.encodeHotHeadBinary cfg frames).drop 64).take 4).reverse)
    72 = _
  rw [hcount, hle]
  exact readFrames_flatMap (by omega) hsize hfits (Nat.mod_le _ _) hframes (by omega)

end HotHeadCall

/-! ### The header of an envelope -/

omit [FileDigests] [WireFormats] [SealDigests] in
/-- `MbfHeader::cell_id` -/
def headerCellId (header : MbfHeader) : ℕ := header.flags / 2 ^ 10 % 64

omit [FileDigests] [WireFormats] [SealDigests] in
/-- `MbfHeader::epoch_id` -/
def headerEpochId (header : MbfHeader) : ℕ := header.maxTxId

omit [WireFormats] [SealDigests] in
/-- The fields of a written header that its readers ask for. -/
theorem read_header (call : EnvelopeCall) :
    headerCellId (MbfHeader.read call.header.toBytes) = call.cellId % 64 ∧
      (MbfHeader.read call.header.toBytes).rowCount = min call.rowCount (2 ^ 32 - 1) ∧
      headerEpochId (MbfHeader.read call.header.toBytes) = call.epochId.val := by
  have hmagic : call.header.magic.length = 8 := rfl
  have hhash : call.header.tenantHash.length = 16 := by
    change (leBytes 8 _ ++ leBytes 8 _).length = 16
    rw [List.length_append, leBytes_length, leBytes_length]
  have hflagsVal : call.header.flags = (0x1FC + call.cellId % 64 * 2 ^ 10) / 2 ^ 10 * 2 ^ 10 + 6 := rfl
  have hflags : leAt call.header.toBytes 10 2 = call.header.flags := by
    rw [MbfHeader.toBytes, ← List.append_assoc]
    exact leAt_after _ (by simp [hmagic]) (by rw [hflagsVal]; omega)
  have hrows : leAt call.header.toBytes 12 4 = call.header.rowCount := by
    rw [MbfHeader.toBytes, ← List.append_assoc, ← List.append_assoc]
    refine leAt_after _ (by simp [hmagic]) ?_
    change min call.rowCount (2 ^ 32 - 1) < 256 ^ 4
    omega
  have hepoch : leAt call.header.toBytes 40 8 = call.header.maxTxId := by
    rw [MbfHeader.toBytes, ← List.append_assoc, ← List.append_assoc, ← List.append_assoc,
      ← List.append_assoc, ← List.append_assoc]
    refine leAt_after _ (by simp [hmagic, hhash]) ?_
    have hlt := call.epochId.isLt
    change call.epochId.val < 256 ^ 8
    omega
  refine ⟨?_, hrows, hepoch⟩
  change leAt call.header.toBytes 10 2 / 2 ^ 10 % 64 = _
  rw [hflags, hflagsVal]
  omega

/-- A hot head gives its frames back exactly if their number fits 32 bits, and an envelope gives
back its payload with the cell, the rows and the epoch that it was written with. -/
theorem round_trip_iff (h : EnvelopeCall.Digests32) (cfg : EngineConfig) (call : HotHeadCall)
    (frames : List CommittedDeltaFrame) (hfits : ∀ f ∈ frames, FrameFits f)
    (hsize : (call.encodeHotHeadBinary cfg frames).length < 2 ^ 63) (envelope : EnvelopeCall)
    (payload : List Byte) (hfile : (envelope.encodeMbfEnvelope cfg payload).length < 2 ^ 63) :
    (decodeHotHeadBinary (call.encodeHotHeadBinary cfg frames) = .ok frames ↔
      frames.length < 2 ^ 32) ∧
    ∃ header, decodeMbfEnvelope (envelope.encodeMbfEnvelope cfg payload) = .ok (header, payload) ∧
      headerCellId header = envelope.cellId % 64 ∧
      header.rowCount = min envelope.rowCount (2 ^ 32 - 1) ∧
      headerEpochId header = envelope.epochId.val := by
  constructor
  · rw [HotHeadCall.decode_encode h hfits hsize, Except.ok.injEq, List.take_eq_self_iff]
    constructor
    · intro hle
      have hmod := Nat.mod_lt frames.length (by norm_num : 0 < 2 ^ 32)
      omega
    · intro hlt
      rw [Nat.mod_eq_of_lt hlt]
  · have hregion : (MbfPartitionWireSnapshot.padTo64 payload).length =
        (MbfPartitionWireSnapshot.padTo64 payload).length := rfl
    have hdecode := EnvelopeCall.decode_fileAround cfg envelope payload h hregion hfile
    have hcut : (MbfPartitionWireSnapshot.padTo64 payload).take payload.length = payload :=
      List.take_left' rfl
    rw [hcut] at hdecode
    refine ⟨_, hdecode, ?_⟩
    rw [headerOf, EnvelopeCall.take_header cfg envelope payload]
    exact read_header envelope

end Files

/-- A frame without a payload. -/
def emptyFrame : CommittedDeltaFrame := ⟨⟨0, 1, 0, 0⟩, ""⟩

theorem emptyFrame_fits : @FrameFits storedSized emptyFrame :=
  @FrameFits.mk storedSized emptyFrame (by decide) (by decide) (by decide) rfl

def headCall : HotHeadCall where
  tenantId := "acme"
  cellId := 3
  nowMs := 1000

theorem round_trip_iff_ledger :
    (@decodeHotHeadBinary sumDigests storedSized
        (@HotHeadCall.encodeHotHeadBinary sumDigests storedSized frontDigests {} headCall
          [emptyFrame]) = .ok [emptyFrame] ↔ [emptyFrame].length < 2 ^ 32) ∧
    ∃ header, @decodeMbfEnvelope sumDigests
        (@EnvelopeCall.encodeMbfEnvelope sumDigests frontDigests {} ledgerCall [1]) =
          .ok (header, [1]) ∧
      headerCellId header = ledgerCall.cellId % 64 ∧
      header.rowCount = min ledgerCall.rowCount (2 ^ 32 - 1) ∧
      headerEpochId header = ledgerCall.epochId.val := by
  apply @round_trip_iff sumDigests storedSized frontDigests frontDigests32 {} headCall [emptyFrame]
  · intro f hf
    rw [List.mem_singleton.mp hf]
    exact emptyFrame_fits
  · decide +kernel
  · decide +kernel

/-- The file of `2 ^ 32` frames says that there are none. -/
theorem countless_frames_are_lost :
    @decodeHotHeadBinary sumDigests storedSized
        (@HotHeadCall.encodeHotHeadBinary sumDigests storedSized frontDigests {} headCall
          (List.replicate (2 ^ 32) emptyFrame)) ≠ .ok (List.replicate (2 ^ 32) emptyFrame) := by
  let _ := sumDigests
  let _ := storedSized
  let _ := frontDigests
  have hframe : (frameBytes emptyFrame).length = 36 := by decide
  have hframes : ((List.replicate (2 ^ 32) emptyFrame).flatMap frameBytes).length =
      36 * 2 ^ 32 := by
    rw [List.length_flatMap, List.map_replicate, List.sum_replicate, hframe]
    norm_num
  have hbody := (@HotHeadCall.body_length _ _ headCall (List.replicate (2 ^ 32) emptyFrame)).2.2
  have hfooter := @HotHeadCall.footer_length _ _ _ {} headCall
    (List.replicate (2 ^ 32) emptyFrame) frontDigests32
  have hdecode := @HotHeadCall.decode_encode _ _ _ {} headCall
    (List.replicate (2 ^ 32) emptyFrame) frontDigests32
    (fun f hf => by
      rw [List.eq_of_mem_replicate hf]
      exact emptyFrame_fits)
    (by
      rw [HotHeadCall.encodeHotHeadBinary, List.length_append, hfooter]
      omega)
  rw [hdecode, List.length_replicate, Nat.mod_self, List.take_zero]
  intro heq
  have hlength := congrArg List.length (Except.ok.inj heq)
  rw [List.length_replicate, List.length_nil] at hlength
  norm_num at hlength

end MetriEngine.Storage.Decoders
