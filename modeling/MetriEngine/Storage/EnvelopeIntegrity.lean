import MetriEngine.Storage.Envelope

/-!
# What the envelope decoder checks

The decoder accepts a file exactly when its header, its footer, the tag of its seal and its
directory pass. The bytes between the seal and the directory are under none of these checks,
so a file whose payload alone was altered is accepted and gives the altered payload.
-/
namespace MetriEngine.Storage.Envelope
open Foundation

/-! ### The directory -/

/-- The descriptors in the bytes of a directory. -/
def columnsOf (bytes : List Byte) (count i : ℕ) : List ColumnChunkDescriptor :=
  (List.range' i count).map fun j => .read ((bytes.drop (136 + j * 32)).take 32)

def directoryOf (bytes : List Byte) : MbfDirectoryIndex where
  zones := (List.range 16).map fun i => leAt (bytes.take 128) (8 * i) 8
  columns := columnsOf bytes (MbfDirectoryIndex.columnCount bytes) 0

theorem readColumns_eq {bytes : List Byte} (hbytes : bytes.length < 2 ^ 63) {count i : ℕ}
    (h : 136 + (i + count) * 32 ≤ bytes.length) :
    MbfDirectoryIndex.readColumns bytes count i = .ok (columnsOf bytes count i) := by
  induction count generalizing i with
  | zero => rfl
  | succ count ih =>
    unfold MbfDirectoryIndex.readColumns
    rw [usizeAdd_eq (by omega), ok_bind, usizeAdd_eq (by omega), ok_bind,
      slice_eq (by omega) (by omega), ok_bind, ih (by omega), ok_bind, Nat.add_sub_cancel_left]
    rfl

theorem directory_fromBytes {bytes : List Byte} (hbytes : bytes.length < 2 ^ 63) :
    (136 ≤ bytes.length ∧ 136 + MbfDirectoryIndex.columnCount bytes * 32 ≤ bytes.length →
      MbfDirectoryIndex.fromBytes bytes = .ok (directoryOf bytes)) ∧
    (¬(136 ≤ bytes.length ∧ 136 + MbfDirectoryIndex.columnCount bytes * 32 ≤ bytes.length) →
      ∃ e, MbfDirectoryIndex.fromBytes bytes = .error (.err e)) := by
  unfold MbfDirectoryIndex.fromBytes
  rw [failIf_bind]
  by_cases hshort : bytes.length < 136
  · rw [if_pos hshort]
    exact ⟨fun h => absurd h.1 (by omega), fun _ => ⟨_, rfl⟩⟩
  have hcount : ((fun le => ofBeBytes le.reverse) <$> slice bytes 128 132 : Checked DomainError ℕ) =
      .ok (MbfDirectoryIndex.columnCount bytes) := by
    rw [slice_eq (by omega) (by omega)]
    rfl
  rw [if_neg hshort, slice_eq (by omega) (by omega), ok_bind, hcount, ok_bind, failIf_bind]
  by_cases hcut : bytes.length <
      min (136 + min (MbfDirectoryIndex.columnCount bytes * 32) (2 ^ 64 - 1)) (2 ^ 64 - 1)
  · rw [if_pos hcut]
    exact ⟨fun h => absurd h.2 (by omega), fun _ => ⟨_, rfl⟩⟩
  · rw [if_neg hcut, readColumns_eq hbytes (by omega), ok_bind]
    exact ⟨fun _ => rfl, fun h => absurd ⟨by omega, by omega⟩ h⟩

/-! ### The file -/

section Files
variable [FileDigests]

omit [FileDigests] in
theorem header_fromBytes {bytes : List Byte} (h : bytes.length = 64) :
    (((MbfHeader.read bytes).magic = mbfMagic ∨ (MbfHeader.read bytes).magic = mbfIdxMagic) ∧
        (MbfHeader.read bytes).version = 1 →
      MbfHeader.fromBytes bytes = .ok (MbfHeader.read bytes)) ∧
    (¬(((MbfHeader.read bytes).magic = mbfMagic ∨ (MbfHeader.read bytes).magic = mbfIdxMagic) ∧
        (MbfHeader.read bytes).version = 1) →
      ∃ e, MbfHeader.fromBytes bytes = .error (.err e)) := by
  have htake : (bytes.drop 0).take (64 - 0) = bytes := List.take_of_length_le h.le
  unfold MbfHeader.fromBytes
  rw [failIf_bind, if_neg (by omega), slice_eq (by omega) (by omega), htake, ok_bind]
  unfold MbfHeader.validate
  by_cases hmagic : (MbfHeader.read bytes).magic ≠ mbfMagic ∧ (MbfHeader.read bytes).magic ≠ mbfIdxMagic
  · rw [if_pos hmagic]
    exact ⟨fun hok => absurd hok.1 (by tauto), fun _ => ⟨_, rfl⟩⟩
  · rw [if_neg hmagic]
    by_cases hversion : (MbfHeader.read bytes).version ≠ 1
    · rw [if_pos hversion]
      exact ⟨fun hok => absurd hok.2 hversion, fun _ => ⟨_, rfl⟩⟩
    · rw [if_neg hversion]
      exact ⟨fun _ => rfl, fun hbad => absurd ⟨by tauto, not_not.mp hversion⟩ hbad⟩

omit [FileDigests] in
theorem footer_fromBytes {bytes : List Byte} (h : bytes.length = 64) :
    MbfFooterTrailer.fromBytes bytes =
      if (MbfFooterTrailer.read bytes).footerMagic ≠ mbfFooterMagic then
        fail "Invalid MbfFooterTrailer magic bytes (expected MBFFOOTR)"
      else .ok (MbfFooterTrailer.read bytes) := by
  have htake : (bytes.drop 0).take (64 - 0) = bytes := List.take_of_length_le h.le
  unfold MbfFooterTrailer.fromBytes
  rw [failIf_bind, if_neg (by omega), slice_eq (by omega) (by omega), htake, ok_bind, failIf_bind]
  rfl

omit [FileDigests] in
theorem seal_fromBytes {bytes : List Byte} (h : bytes.length = 64) :
    sealFromBytes bytes = .ok (sealRead bytes) := by
  have htake : (bytes.drop 0).take (64 - 0) = bytes := List.take_of_length_le h.le
  unfold sealFromBytes
  rw [failIf_bind, if_neg (by omega), slice_eq (by omega) (by omega), htake, ok_bind]
  rfl

omit [FileDigests] in
theorem within_ok {α : Type} (context : String) (a : α) :
    within context (.ok a : Checked DomainError α) = .ok a := rfl

omit [FileDigests] in
theorem seal_slice {file : List Byte} (h : 256 ≤ file.length) :
    (slice file 64 128 >>= sealFromBytes : Checked DomainError MbfTenantCryptoSeal) =
      .ok (sealOf file) := by
  rw [slice_eq (by omega) (by omega), ok_bind]
  apply seal_fromBytes
  rw [List.length_take, List.length_drop]
  omega

omit [FileDigests] in
theorem verifySeal_eq {file : List Byte} (h : 256 ≤ file.length) (header : MbfHeader)
    (footer : MbfFooterTrailer) :
    verifySeal file header footer =
      failIf (header.cryptoSealed = true ∧ (sealOf file).keyedMac.take 24 ≠ footer.hmacTagTruncated)
        "Footer truncated HMAC-192 tag does not match MbfTenantCryptoSeal" := by
  unfold verifySeal failIf
  cases hsealed : header.cryptoSealed with
  | false => simp
  | true =>
    have hread : (do
        let sealBytes ← slice file 64 128
        let cryptoSeal ← sealFromBytes sealBytes
        verifyFooterTag cryptoSeal footer) =
      ((slice file 64 128 >>= sealFromBytes) >>= fun s => verifyFooterTag s footer) := by
      rw [bind_assoc]
    rw [if_pos rfl, hread, seal_slice h, ok_bind, verifyFooterTag]
    simp

/-- A file is opened exactly when it passes; otherwise an error is returned. -/
theorem openMbfEnvelope_iff {file : List Byte} (hfile : file.length < 2 ^ 63) :
    (Passes file → openMbfEnvelope file = .ok (headerOf file, (footerOf file).directoryOffset,
      directoryOf (directoryBytes file))) ∧
    (¬Passes file → ∃ e, openMbfEnvelope file = .error (.err e)) := by
  unfold openMbfEnvelope
  rw [failIf_bind]
  by_cases hsize : file.length < 256 ∨ file.length % 64 ≠ 0
  · rw [if_pos hsize]
    exact ⟨fun h => absurd h.size (by omega), fun _ => ⟨_, rfl⟩⟩
  have hheadLength : (file.take 64).length = 64 := by
    rw [List.length_take]
    omega
  have hfootLength : (file.drop (file.length - 64)).length = 64 := by
    rw [List.length_drop]
    omega
  have hheaderOf : MbfHeader.read (file.take 64) = headerOf file := rfl
  have hfooterOf : MbfFooterTrailer.read (file.drop (file.length - 64)) = footerOf file := rfl
  have hhead : (slice file 0 64 : Checked DomainError (List Byte)) = .ok (file.take 64) :=
    slice_eq (by omega) (by omega)
  have hfoot : (slice file (file.length - 64) file.length : Checked DomainError (List Byte)) =
      .ok (file.drop (file.length - 64)) := by
    rw [slice_eq (by omega) le_rfl, List.take_of_length_le]
    rw [List.length_drop]
  rw [if_neg hsize, hhead, ok_bind]
  by_cases hheader : ((headerOf file).magic = mbfMagic ∨ (headerOf file).magic = mbfIdxMagic) ∧
      (headerOf file).version = 1
  case neg =>
    obtain ⟨e, he⟩ := (header_fromBytes hheadLength).2 hheader
    rw [he]
    exact ⟨fun h => absurd h.header hheader, fun _ => ⟨_, rfl⟩⟩
  rw [(header_fromBytes hheadLength).1 hheader, within_ok, ok_bind, hfoot, ok_bind,
    footer_fromBytes hfootLength, hheaderOf, hfooterOf]
  by_cases hmagic : (footerOf file).footerMagic ≠ mbfFooterMagic
  · rw [if_pos hmagic]
    exact ⟨fun h => absurd h.footerMagic hmagic, fun _ => ⟨_, rfl⟩⟩
  rw [if_neg hmagic, within_ok, ok_bind, failIf_bind]
  by_cases hcrc : (footerOf file).headerCrc32c ≠ (FileDigests.crc32 (file.take 64)).val
  · rw [if_pos hcrc]
    exact ⟨fun h => absurd h.headerCrc hcrc, fun _ => ⟨_, rfl⟩⟩
  rw [if_neg hcrc, verifySeal_eq (by omega), failIf_bind]
  by_cases htag : (headerOf file).cryptoSealed = true ∧
      (sealOf file).keyedMac.take 24 ≠ (footerOf file).hmacTagTruncated
  · rw [if_pos htag]
    exact ⟨fun h => absurd (h.tag htag.1) htag.2, fun _ => ⟨_, rfl⟩⟩
  rw [if_neg htag, failIf_bind]
  by_cases hbounds : (footerOf file).directoryOffset < 128 ∨ file.length - 64 <
      min ((footerOf file).directoryOffset + (footerOf file).directoryLen) (2 ^ 64 - 1)
  · rw [if_pos hbounds]
    exact ⟨fun h => absurd h.bounds (by omega), fun _ => ⟨_, rfl⟩⟩
  have hend : min ((footerOf file).directoryOffset + (footerOf file).directoryLen) (2 ^ 64 - 1) =
      (footerOf file).directoryOffset + (footerOf file).directoryLen := by omega
  have hdir : (slice file (footerOf file).directoryOffset
      ((footerOf file).directoryOffset + (footerOf file).directoryLen) :
      Checked DomainError (List Byte)) = .ok (directoryBytes file) := by
    rw [slice_eq (by omega) (by omega), Nat.add_sub_cancel_left]
    rfl
  have hdirLength : (directoryBytes file).length = (footerOf file).directoryLen := by
    rw [directoryBytes, List.length_take, List.length_drop]
    omega
  rw [if_neg hbounds, hend, hdir, ok_bind, failIf_bind]
  by_cases hdirCrc : (FileDigests.crc32 (directoryBytes file)).val ≠ (footerOf file).directoryCrc32c
  · rw [if_pos hdirCrc]
    exact ⟨fun h => absurd h.directoryCrc hdirCrc, fun _ => ⟨_, rfl⟩⟩
  obtain ⟨hread, hrefuse⟩ := @directory_fromBytes (directoryBytes file) (by omega)
  rw [if_neg hdirCrc]
  by_cases hcolumns : 136 ≤ (footerOf file).directoryLen ∧
      136 + MbfDirectoryIndex.columnCount (directoryBytes file) * 32 ≤ (footerOf file).directoryLen
  case neg =>
    obtain ⟨e, he⟩ := hrefuse (by rwa [hdirLength])
    rw [he]
    exact ⟨fun h => absurd h.columns hcolumns, fun _ => ⟨_, rfl⟩⟩
  rw [hread (by rwa [hdirLength])]
  have hpasses : Passes file :=
    { size := by omega
      header := hheader
      footerMagic := not_not.mp hmagic
      headerCrc := not_not.mp hcrc
      tag := fun hsealed => by_contra fun hne => htag ⟨hsealed, hne⟩
      bounds := by omega
      directoryCrc := not_not.mp hdirCrc
      columns := hcolumns }
  exact ⟨fun _ => rfl, fun h => absurd hpasses h⟩

/-- Cutting the payload out of an opened file gives no error of the program. -/
theorem decode_error_iff {file : List Byte} (hfile : file.length < 2 ^ 63) :
    (∃ e, decodeMbfEnvelope file = .error (.err e)) ↔ ¬Passes file := by
  obtain ⟨hopen, hrefuse⟩ := openMbfEnvelope_iff hfile
  constructor
  · rintro ⟨e, he⟩ hpasses
    unfold decodeMbfEnvelope usizeAdd slice at he
    rw [hopen hpasses, ok_bind] at he
    dsimp only at he
    split_ifs at he
    · rw [ok_bind] at he
      split_ifs at he <;> cases he
    · cases he
  · intro hfails
    obtain ⟨e, he⟩ := hrefuse hfails
    refine ⟨e, ?_⟩
    rw [decodeMbfEnvelope, he]
    rfl

/-! ### A written file -/

/-- A footer whose fields fit their places. -/
structure MbfFooterTrailer.Fits (f : MbfFooterTrailer) : Prop where
  directoryOffset : f.directoryOffset < 2 ^ 64
  directoryLen : f.directoryLen < 2 ^ 32
  headerCrc32c : f.headerCrc32c < 2 ^ 32
  directoryCrc32c : f.directoryCrc32c < 2 ^ 32
  schemaFingerprintHi : f.schemaFingerprintHi < 2 ^ 32
  fiscalLockEpochMs : -2 ^ 63 ≤ f.fiscalLockEpochMs ∧ f.fiscalLockEpochMs < 2 ^ 63
  hmacTagTruncated : f.hmacTagTruncated.length = 24
  footerMagic : f.footerMagic.length = 8

omit [FileDigests] in
theorem MbfFooterTrailer.read_toBytes {f : MbfFooterTrailer} (h : f.Fits) :
    MbfFooterTrailer.read f.toBytes = f := by
  have hoffset : leAt f.toBytes 0 8 = f.directoryOffset :=
    leAt_here _ (by have := h.directoryOffset; omega)
  have hlen : leAt f.toBytes 8 4 = f.directoryLen :=
    leAt_after _ (leBytes_length _ _) (by have := h.directoryLen; omega)
  have hheader : leAt f.toBytes 12 4 = f.headerCrc32c := by
    rw [toBytes, ← List.append_assoc]
    exact leAt_after _ (by simp) (by have := h.headerCrc32c; omega)
  have hdirectory : leAt f.toBytes 16 4 = f.directoryCrc32c := by
    rw [toBytes, ← List.append_assoc, ← List.append_assoc]
    exact leAt_after _ (by simp) (by have := h.directoryCrc32c; omega)
  have hschema : leAt f.toBytes 20 4 = f.schemaFingerprintHi := by
    rw [toBytes, ← List.append_assoc, ← List.append_assoc, ← List.append_assoc]
    exact leAt_after _ (by simp) (by have := h.schemaFingerprintHi; omega)
  have hfiscal : i64At f.toBytes 24 = f.fiscalLockEpochMs := by
    obtain ⟨hlo, hhi⟩ := h.fiscalLockEpochMs
    have hrange : (f.fiscalLockEpochMs % 2 ^ 64).toNat < 256 ^ 8 := by
      have hlt := Int.emod_lt_of_pos f.fiscalLockEpochMs (by norm_num : (0 : ℤ) < 2 ^ 64)
      omega
    rw [i64At, toBytes, ← List.append_assoc, ← List.append_assoc, ← List.append_assoc,
      ← List.append_assoc, writeI64, leAt_after _ (by simp) hrange, wrapI64]
    omega
  -- the tag and the magic close the footer
  have hfront : (leBytes 8 f.directoryOffset ++ (leBytes 4 f.directoryLen ++
      (leBytes 4 f.headerCrc32c ++ (leBytes 4 f.directoryCrc32c ++
        (leBytes 4 f.schemaFingerprintHi ++ writeI64 f.fiscalLockEpochMs))))).length = 32 := by
    simp [writeI64]
  have hsplit : f.toBytes = (leBytes 8 f.directoryOffset ++ (leBytes 4 f.directoryLen ++
      (leBytes 4 f.headerCrc32c ++ (leBytes 4 f.directoryCrc32c ++
        (leBytes 4 f.schemaFingerprintHi ++ writeI64 f.fiscalLockEpochMs))))) ++
          (f.hmacTagTruncated ++ f.footerMagic) := by
    simp only [toBytes, List.append_assoc]
  have htag : (f.toBytes.drop 32).take 24 = f.hmacTagTruncated := by
    rw [hsplit, List.drop_left' hfront, List.take_left' h.hmacTagTruncated]
  have hmagic : (f.toBytes.drop 56).take 8 = f.footerMagic := by
    have hsum : 56 = 32 + 24 := rfl
    rw [hsum, ← List.drop_drop, hsplit, List.drop_left' hfront, List.drop_left' h.hmacTagTruncated,
      List.take_of_length_le h.footerMagic.le]
  rw [read, hoffset, hlen, hheader, hdirectory, hschema, hfiscal, htag, hmagic]

namespace EnvelopeCall
variable [SealDigests] {cfg : EngineConfig} {call : EnvelopeCall} {payload region : List Byte}

omit [SealDigests] in
theorem header_length : call.header.toBytes.length = 64 := by
  have hmagic : call.header.magic.length = 8 := rfl
  have hhash : call.header.tenantHash.length = 16 := by
    change (leBytes 8 _ ++ leBytes 8 _).length = 16
    rw [List.length_append, leBytes_length, leBytes_length]
  simp only [MbfHeader.toBytes, writeI64, List.length_append, leBytes_length, hmagic, hhash]

omit [FileDigests] [SealDigests] in
theorem padTo64_length (bytes : List Byte) :
    (MbfPartitionWireSnapshot.padTo64 bytes).length =
      bytes.length + if bytes.length % 64 = 0 then 0 else 64 - bytes.length % 64 := by
  rw [MbfPartitionWireSnapshot.padTo64, List.length_append, List.length_replicate]

/-- The directory before its padding. -/
def directoryHead (call : EnvelopeCall) (payload : List Byte) : List Byte :=
  (call.directory payload).zones.flatMap (leBytes 8) ++ (leBytes 4 1 ++ (leBytes 4 0 ++
    (call.directory payload).columns.flatMap ColumnChunkDescriptor.toBytes))

omit [FileDigests] [SealDigests] in
theorem flatMap_leBytes_length (n : ℕ) (xs : List ℕ) :
    (xs.flatMap (leBytes n)).length = n * xs.length := by
  induction xs with
  | nil => rfl
  | cons x xs ih => rw [List.flatMap_cons, List.length_append, ih, leBytes_length,
      List.length_cons, Nat.mul_succ, Nat.add_comm]

omit [FileDigests] [SealDigests] in
theorem column_length (c : ColumnChunkDescriptor) : c.toBytes.length = 32 := by
  simp only [ColumnChunkDescriptor.toBytes, List.length_append, leBytes_length]

omit [SealDigests] in
theorem directoryHead_length : (call.directoryHead payload).length = 168 := by
  have hzones : ((call.directory payload).zones.flatMap (leBytes 8)).length = 128 :=
    flatMap_leBytes_length 8 _
  have hcolumns :
      ((call.directory payload).columns.flatMap ColumnChunkDescriptor.toBytes).length = 32 := by
    rw [directory, List.flatMap_singleton, column_length]
  rw [directoryHead, List.length_append, List.length_append, List.length_append, leBytes_length,
    leBytes_length, hzones, hcolumns]

omit [SealDigests] in
theorem directory_toBytes : (call.directory payload).toBytes =
    call.directoryHead payload ++ List.replicate 24 0 := by
  have hpadded : (call.directory payload).toBytes =
      MbfPartitionWireSnapshot.padTo64 (call.directoryHead payload) := rfl
  rw [hpadded, MbfPartitionWireSnapshot.padTo64, directoryHead_length]
  rfl

omit [SealDigests] in
theorem directory_length : (call.directory payload).toBytes.length = 192 := by
  rw [directory_toBytes, List.length_append, directoryHead_length, List.length_replicate]

omit [SealDigests] in
theorem directory_columnCount :
    MbfDirectoryIndex.columnCount (call.directory payload).toBytes = 1 := by
  have hzones : ((call.directory payload).zones.flatMap (leBytes 8)).length = 128 :=
    flatMap_leBytes_length 8 _
  rw [MbfDirectoryIndex.columnCount, directory_toBytes, directoryHead, List.append_assoc,
    leAt_skip hzones.le, hzones, List.append_assoc]
  exact leAt_here _ (by norm_num)

omit [SealDigests] in
/-- The one column has the length of the payload. -/
theorem directory_byteLen (hpayload : payload.length < 2 ^ 64) :
    (directoryOf (call.directory payload).toBytes).columns.head?.map (·.byteLen) =
      some payload.length := by
  have hzones : ((call.directory payload).zones.flatMap (leBytes 8)).length = 128 :=
    flatMap_leBytes_length 8 _
  have hcolumn : ((call.directory payload).toBytes.drop 136).take 32 =
      ((call.directory payload).columns.flatMap ColumnChunkDescriptor.toBytes) := by
    have hcolumns :
        ((call.directory payload).columns.flatMap ColumnChunkDescriptor.toBytes).length = 32 := by
      rw [directory, List.flatMap_singleton, column_length]
    have hbefore : ((call.directory payload).zones.flatMap (leBytes 8) ++
        (leBytes 4 1 ++ leBytes 4 0)).length = 136 := by
      rw [List.length_append, List.length_append, hzones, leBytes_length, leBytes_length]
    have hsplit : call.directoryHead payload = ((call.directory payload).zones.flatMap (leBytes 8) ++
        (leBytes 4 1 ++ leBytes 4 0)) ++
        (call.directory payload).columns.flatMap ColumnChunkDescriptor.toBytes := by
      simp only [directoryHead, List.append_assoc]
    rw [directory_toBytes, hsplit, List.append_assoc, List.drop_left' hbefore,
      List.take_left' hcolumns]
  have hlen : (ColumnChunkDescriptor.read
      ((call.directory payload).columns.flatMap ColumnChunkDescriptor.toBytes)).byteLen =
      payload.length := by
    rw [directory, List.flatMap_singleton]
    simp only [ColumnChunkDescriptor.read, ColumnChunkDescriptor.toBytes]
    rw [leAt_skip (by simp), leAt_skip (by simp), leAt_skip (by simp), leAt_skip (by simp),
      leAt_skip (by simp)]
    simp only [leBytes_length]
    exact leAt_here _ (by omega)
  rw [directoryOf, columnsOf, directory_columnCount]
  simpa [hcolumn] using hlen

/-- The digests have 32 bytes. -/
structure Digests32 : Prop where
  sha256 : ∀ m, (SealDigests.sha256 m).length = 32
  hmacSha256 : ∀ k m, (SealDigests.hmacSha256 k m).length = 32

omit [FileDigests] in
theorem seal_length (h : Digests32) : (sealToBytes (call.cryptoSeal cfg payload)).length = 64 := by
  have hcontext : (call.cryptoSeal cfg payload).tenantContextHash.length = 16 := by
    change (List.take 16 (SealDigests.sha256 _)).length = 16
    rw [List.length_take, h.sha256]
    rfl
  have hnonce : (call.cryptoSeal cfg payload).nonce.length = 12 := by
    change (leBytes 8 _ ++ List.replicate 4 0).length = 12
    rw [List.length_append, leBytes_length, List.length_replicate]
  have hmac : (call.cryptoSeal cfg payload).keyedMac.length = 32 := h.hmacSha256 _ _
  rw [sealToBytes, List.length_append, List.length_append, List.length_append, hcontext, hnonce,
    hmac, leBytes_length]

theorem footer_length (h : Digests32) : (call.footer cfg payload).toBytes.length = 64 := by
  have hmac : (call.cryptoSeal cfg payload).keyedMac.length = 32 := h.hmacSha256 _ _
  have htag : (call.footer cfg payload).hmacTagTruncated.length = 24 := by
    change (List.take 24 _).length = 24
    rw [List.length_take, hmac]
    rfl
  have hmagic : (call.footer cfg payload).footerMagic.length = 8 := rfl
  simp only [MbfFooterTrailer.toBytes, writeI64, List.length_append, leBytes_length, htag, hmagic]

variable (cfg call payload)

theorem fileAround_length (h : Digests32) (region : List Byte) :
    (call.fileAround cfg payload region).length = region.length + 384 := by
  rw [fileAround, List.length_append, List.length_append, List.length_append, List.length_append,
    header_length, seal_length h, directory_length, footer_length h]
  omega

theorem take_header (region : List Byte) :
    (call.fileAround cfg payload region).take 64 = call.header.toBytes :=
  List.take_left' header_length

theorem drop_seal (h : Digests32) (region : List Byte) :
    ((call.fileAround cfg payload region).drop 64).take 64 =
      sealToBytes (call.cryptoSeal cfg payload) := by
  rw [fileAround, List.drop_left' header_length, List.take_left' (seal_length h)]

theorem drop_payload (h : Digests32) (region : List Byte) :
    (call.fileAround cfg payload region).drop 128 = region ++
      ((call.directory payload).toBytes ++ (call.footer cfg payload).toBytes) := by
  have hfront : (call.header.toBytes ++ sealToBytes (call.cryptoSeal cfg payload)).length = 128 := by
    rw [List.length_append, header_length, seal_length h]
  rw [fileAround, ← List.append_assoc, List.drop_left' hfront]

theorem drop_footer (h : Digests32) (region : List Byte) :
    (call.fileAround cfg payload region).drop
        ((call.fileAround cfg payload region).length - 64) = (call.footer cfg payload).toBytes := by
  have hfront : (region ++ (call.directory payload).toBytes).length = region.length + 192 := by
    rw [List.length_append, directory_length]
  have hsum : region.length + 384 - 64 = 128 + (region.length + 192) := by omega
  rw [fileAround_length cfg call payload h, hsum, ← List.drop_drop, drop_payload cfg call payload h,
    ← List.append_assoc, List.drop_left' hfront]

/-! What is written is read back, whatever the payload. -/

theorem headerOf_fileAround (region : List Byte) :
    (headerOf (call.fileAround cfg payload region)).magic = mbfMagic ∧
    (headerOf (call.fileAround cfg payload region)).version = 1 := by
  rw [headerOf, take_header]
  refine ⟨rfl, ?_⟩
  have hversion : call.header.version = 1 := rfl
  have hread := leAt_after (leBytes 2 call.header.flags ++ (leBytes 4 call.header.rowCount ++
    (call.header.tenantHash ++ (leBytes 8 call.header.minTxId ++ (leBytes 8 call.header.maxTxId ++
      (writeI64 call.header.minTimestampMs ++ writeI64 call.header.maxTimestampMs))))))
    (show mbfMagic.length = 8 from rfl) (show 1 < 256 ^ 2 by norm_num)
  exact hread

theorem footerOf_fileAround (h : Digests32) (region : List Byte)
    (hsize : (MbfPartitionWireSnapshot.padTo64 payload).length + 128 < 2 ^ 64) :
    footerOf (call.fileAround cfg payload region) = call.footer cfg payload := by
  rw [footerOf, drop_footer cfg call payload h]
  have hmac : (call.cryptoSeal cfg payload).keyedMac.length = 32 := h.hmacSha256 _ _
  apply MbfFooterTrailer.read_toBytes
  constructor
  case directoryOffset =>
    change 128 + (MbfPartitionWireSnapshot.padTo64 payload).length < 2 ^ 64
    omega
  case directoryLen =>
    change (call.directory payload).toBytes.length < 2 ^ 32
    rw [directory_length]
    norm_num
  case headerCrc32c => exact (FileDigests.crc32 _).isLt
  case directoryCrc32c => exact (FileDigests.crc32 _).isLt
  case schemaFingerprintHi => exact Nat.mod_lt _ (by norm_num)
  case fiscalLockEpochMs => exact ⟨by norm_num [footer], by norm_num [footer]⟩
  case hmacTagTruncated =>
    change (List.take 24 _).length = 24
    rw [List.length_take, hmac]
    rfl
  case footerMagic => rfl

theorem directoryBytes_fileAround (h : Digests32) {region : List Byte}
    (hregion : region.length = (MbfPartitionWireSnapshot.padTo64 payload).length)
    (hsize : (MbfPartitionWireSnapshot.padTo64 payload).length + 128 < 2 ^ 64) :
    directoryBytes (call.fileAround cfg payload region) = (call.directory payload).toBytes := by
  rw [directoryBytes, footerOf_fileAround cfg call payload h region hsize]
  change ((call.fileAround cfg payload region).drop
    (128 + (MbfPartitionWireSnapshot.padTo64 payload).length)).take
      (call.directory payload).toBytes.length = _
  rw [← List.drop_drop, drop_payload cfg call payload h, List.drop_left' hregion,
    List.take_left' rfl]

theorem sealOf_fileAround (h : Digests32) (region : List Byte) :
    (sealOf (call.fileAround cfg payload region)).keyedMac =
      (call.cryptoSeal cfg payload).keyedMac := by
  have hmac : (call.cryptoSeal cfg payload).keyedMac.length = 32 := h.hmacSha256 _ _
  have hlength : (sealToBytes (call.cryptoSeal cfg payload)).length = 64 := seal_length h
  have hsplit : sealToBytes (call.cryptoSeal cfg payload) =
      ((call.cryptoSeal cfg payload).tenantContextHash ++ ((call.cryptoSeal cfg payload).nonce ++
        leBytes 4 (call.cryptoSeal cfg payload).cryptoFlags)) ++
        (call.cryptoSeal cfg payload).keyedMac := by
    simp only [sealToBytes, List.append_assoc]
  rw [hsplit, List.length_append, hmac] at hlength
  rw [sealOf, drop_seal cfg call payload h, hsplit]
  change ((_ ++ (call.cryptoSeal cfg payload).keyedMac).drop 32).take 32 = _
  rw [List.drop_left' (by omega), List.take_of_length_le hmac.le]

/-- A file around any bytes in the payload's place passes. -/
theorem passes_fileAround (h : Digests32) {region : List Byte}
    (hregion : region.length = (MbfPartitionWireSnapshot.padTo64 payload).length)
    (hsize : (MbfPartitionWireSnapshot.padTo64 payload).length + 128 < 2 ^ 64) :
    Passes (call.fileAround cfg payload region) := by
  have hfooter := footerOf_fileAround cfg call payload h region hsize
  have hdirectory := directoryBytes_fileAround cfg call payload h hregion hsize
  have hlength := fileAround_length cfg call payload h region
  obtain ⟨hmagic, hversion⟩ := headerOf_fileAround cfg call payload region
  have hpad : region.length % 64 = 0 := by
    rw [hregion, padTo64_length]
    split <;> omega
  constructor
  case size => omega
  case header => exact ⟨.inl hmagic, hversion⟩
  case footerMagic => rw [hfooter]; rfl
  case headerCrc => rw [hfooter, take_header]; rfl
  case tag =>
    intro _
    rw [hfooter, sealOf_fileAround cfg call payload h]
    rfl
  case bounds =>
    rw [hfooter, hlength]
    change 128 ≤ 128 + (MbfPartitionWireSnapshot.padTo64 payload).length ∧
      128 + (MbfPartitionWireSnapshot.padTo64 payload).length +
        (call.directory payload).toBytes.length ≤ _
    rw [directory_length, ← hregion]
    omega
  case directoryCrc => rw [hfooter, hdirectory]; rfl
  case columns =>
    rw [hfooter, hdirectory, directory_columnCount]
    change 136 ≤ (call.directory payload).toBytes.length ∧ _ ≤ (call.directory payload).toBytes.length
    rw [directory_length]
    norm_num

/-- Whatever stands in the payload's place is returned as the payload. -/
theorem decode_fileAround (h : Digests32) {region : List Byte}
    (hregion : region.length = (MbfPartitionWireSnapshot.padTo64 payload).length)
    (hsize : (call.encodeMbfEnvelope cfg payload).length < 2 ^ 63) :
    decodeMbfEnvelope (call.fileAround cfg payload region) =
      .ok (headerOf (call.fileAround cfg payload region), region.take payload.length) := by
  rw [encodeMbfEnvelope, fileAround_length cfg call payload h] at hsize
  have hpadded := padTo64_length payload
  have hlength := fileAround_length cfg call payload h region
  have hopen := (openMbfEnvelope_iff (by omega)).1
    (passes_fileAround cfg call payload h hregion (by omega))
  have hfooter := footerOf_fileAround cfg call payload h region (by omega)
  have hoffset : (footerOf (call.fileAround cfg payload region)).directoryOffset =
      128 + region.length := by
    rw [hfooter, hregion]
    rfl
  have hcolumn : (directoryOf (call.directory payload).toBytes).columns.head?.map (·.byteLen) =
      some payload.length := directory_byteLen (by omega)
  have hlen : payloadLen (128 + region.length)
      (directoryOf (call.directory payload).toBytes) = payload.length := by
    unfold payloadLen
    cases hhead : (directoryOf (call.directory payload).toBytes).columns.head? with
    | none => rw [hhead] at hcolumn; cases hcolumn
    | some c =>
      rw [hhead] at hcolumn
      exact Option.some.inj hcolumn
  have hfit : payload.length ≤ region.length := by omega
  unfold decodeMbfEnvelope
  rw [hopen, ok_bind, hoffset, directoryBytes_fileAround cfg call payload h hregion (by omega)]
  dsimp only
  rw [hlen, usizeAdd_eq (by omega), ok_bind, min_eq_left (by omega), slice_eq (by omega) (by omega),
    ok_bind, drop_payload cfg call payload h, Nat.add_sub_cancel_left, List.take_append_of_le_length hfit]
  rfl

end EnvelopeCall

/-- A file is refused exactly when a check fails that reads none of its payload; every file
that differs from a written one in its payload only is accepted, and the altered bytes are
given out as the payload. -/
theorem decode_refuses_iff [SealDigests] (h : EnvelopeCall.Digests32) (cfg : EngineConfig)
    (call : EnvelopeCall) (payload : List Byte)
    (hsize : (call.encodeMbfEnvelope cfg payload).length < 2 ^ 63) :
    (∀ file : List Byte, file.length < 2 ^ 63 →
      ((∃ e, decodeMbfEnvelope file = .error (.err e)) ↔ ¬Passes file)) ∧
    ∀ region : List Byte, region.length = (MbfPartitionWireSnapshot.padTo64 payload).length →
      decodeMbfEnvelope (call.fileAround cfg payload region) =
        .ok (headerOf (call.fileAround cfg payload region), region.take payload.length) := by
  constructor
  · intro file hfile
    exact decode_error_iff hfile
  · intro region hregion
    exact EnvelopeCall.decode_fileAround cfg call payload h hregion hsize

end Files

/-- A digest that shows the front of the payload in its tag. -/
@[reducible] def frontDigests : SealDigests where
  sha256 m := (m ++ List.replicate 32 0).take 32
  hmacSha256 _ m := (m.drop 28 ++ List.replicate 32 0).take 32

theorem frontDigests32 : @EnvelopeCall.Digests32 frontDigests := by
  let _ := frontDigests
  constructor
  · intro m
    change ((m ++ List.replicate 32 0).take 32).length = 32
    rw [List.length_take, List.length_append, List.length_replicate]
    omega
  · intro _ m
    change ((m.drop 28 ++ List.replicate 32 0).take 32).length = 32
    rw [List.length_take, List.length_append, List.length_replicate]
    omega

/-- Checksums that add up the bytes. -/
@[reducible] def sumDigests : FileDigests where
  crc32 m := Fin.ofNat (2 ^ 32) (m.map (·.val)).sum
  xxh64 m seed := Fin.ofNat (2 ^ 64) ((m.map (·.val)).sum + seed)

def ledgerCall : EnvelopeCall where
  cellId := 0
  rowCount := 1
  epochId := 7
  tenantId := "acme"
  entityType := "ledger"
  nowMs := 1000

/-- The file written for a payload of one byte. -/
def ledgerFile : List Byte :=
  @EnvelopeCall.encodeMbfEnvelope sumDigests frontDigests {} ledgerCall [1]

/-- The same file with another byte at the front of its payload. -/
def alteredFile : List Byte := ledgerFile.set 128 2

theorem decode_refuses_iff_ledger :
    (∀ file : List Byte, file.length < 2 ^ 63 →
      ((∃ e, @decodeMbfEnvelope sumDigests file = .error (.err e)) ↔ ¬@Passes sumDigests file)) ∧
    ∀ region : List Byte, region.length = (MbfPartitionWireSnapshot.padTo64 [1]).length →
      @decodeMbfEnvelope sumDigests
          (@EnvelopeCall.fileAround sumDigests frontDigests {} ledgerCall [1] region) =
        .ok (headerOf (@EnvelopeCall.fileAround sumDigests frontDigests {} ledgerCall [1] region),
          region.take 1) :=
  @decode_refuses_iff sumDigests frontDigests frontDigests32 {} ledgerCall [1] (by decide +kernel)

/-- The altered file is read as any other. -/
theorem altered_payload_accepted :
    alteredFile ≠ ledgerFile ∧ alteredFile.length = ledgerFile.length ∧
      alteredFile.take 128 = ledgerFile.take 128 ∧
      alteredFile.drop 129 = ledgerFile.drop 129 ∧
      (@decodeMbfEnvelope sumDigests alteredFile).toOption.map Prod.snd = some [2] ∧
      (@decodeMbfEnvelope sumDigests ledgerFile).toOption.map Prod.snd = some [1] := by
  decide +kernel

end MetriEngine.Storage.Envelope
