import Mathlib.Data.List.Chain
import Ridstore.RecordCodec.Codec

/-
# Ridstore.RecordCodec.CodecSafety — the codec of commit groups loses nothing

For every record of a group there is one lemma that says what the decoder does with its fields.  Read forwards
it gives the decoding of encoded bytes, read backwards it gives the bytes a decoded record came from; the two
loops are inductions over the mutations and over the descriptors.
-/

namespace Ridstore.RecordCodec.Wire

open Lib List

variable {src pre post bytes : Bytes} {m : Mutation} {d : Descriptor} {ms : List Mutation} {ds : List Descriptor}
  {off count total size maxMutations : Nat}

/-! ## §1 — Sizes -/

theorem checkedSize_eq_some {a b : Nat} : checkedSize a b = some size ↔ a + b ≤ maxUint32 ∧ size = a + b := by
  unfold checkedSize
  split
  · simp only [reduceCtorEq, false_iff]
    omega
  · rw [Option.some.injEq]
    omega

theorem checkedMul_eq_some {a b : Nat} : checkedMul a b = some size ↔ a * b ≤ maxUint64 ∧ size = a * b := by
  unfold checkedMul
  split
  next h =>
    rw [Nat.div_lt_iff_lt_mul (Nat.pos_of_ne_zero h.1), Nat.mul_comm] at h
    simp only [reduceCtorEq, false_iff]
    omega
  next h =>
    have hle : a * b ≤ maxUint64 := by
      by_cases hzero : a = 0
      · simp [hzero]
      · have hdiv : b ≤ maxUint64 / a := Nat.le_of_not_lt fun hlt => h ⟨hzero, hlt⟩
        rw [Nat.le_div_iff_mul_le (Nat.pos_of_ne_zero hzero), Nat.mul_comm] at hdiv
        exact hdiv
    rw [Option.some.injEq]
    omega

theorem descriptorSize_eq_some :
    descriptorSize count = some size ↔
      descriptorHeadSize + count * mutationSize ≤ maxUint32 ∧ size = descriptorHeadSize + count * mutationSize := by
  have hbounds : maxUint32 ≤ maxUint64 := by decide
  simp only [descriptorSize, Option.bind_eq_bind, Option.bind_eq_some_iff, checkedMul_eq_some, checkedSize_eq_some]
  constructor
  · rintro ⟨_, ⟨-, rfl⟩, h⟩
    exact h
  · intro h
    exact ⟨_, ⟨by omega, rfl⟩, h⟩

theorem addSizes_eq_ok {t : Nat} (htotal : total ≤ maxUint32) :
    addSizes total ds = .ok t ↔ t = total + (ds.map Descriptor.size).sum ∧ t ≤ maxUint32 := by
  induction ds generalizing total with
  | nil =>
    simp only [addSizes, Except.ok.injEq, map_nil, sum_nil]
    omega
  | cons d rest ih =>
    simp only [addSizes, map_cons, sum_cons]
    cases hsize : descriptorSize d.mutations.length with
    | none =>
      have hlarge : ¬ d.size ≤ maxUint32 := by
        intro hle
        rw [descriptorSize_eq_some.mpr ⟨hle, rfl⟩] at hsize
        cases hsize
      simp only [reduceCtorEq, false_iff]
      omega
    | some size =>
      obtain ⟨hle, rfl⟩ := descriptorSize_eq_some.mp hsize
      change (if maxUint32 - d.size < total then Except.error CodecError.tooLarge
        else addSizes (total + d.size) rest) = Except.ok t ↔ _
      have hle' : d.size ≤ maxUint32 := hle
      split
      · simp only [reduceCtorEq, false_iff]
        omega
      · rw [ih (by omega)]
        omega

theorem commitGroupPayloadSize_eq_ok :
    commitGroupPayloadSize ds = .ok total ↔
      ds ≠ [] ∧ total = commitGroupHeadSize + (ds.map Descriptor.size).sum ∧ total ≤ maxUint32 := by
  have hcount : ds.length ≤ (ds.map Descriptor.size).sum := by
    induction ds with
    | nil => simp
    | cons d rest ih =>
      simp only [length_cons, map_cons, sum_cons, Descriptor.size, descriptorHeadSize]
      omega
  simp only [commitGroupPayloadSize]
  split
  next h =>
    simp only [reduceCtorEq, false_iff, not_and]
    intro hne htotal
    have hlong := h.resolve_left hne
    omega
  next h =>
    rw [addSizes_eq_ok (by decide)]
    simp only [not_or] at h
    exact ⟨fun hok => ⟨h.1, hok⟩, fun hok => hok.2⟩

/-! ## §2 — Mutations -/

@[simp] theorem length_encodeMutation : (encodeMutation m).length = mutationSize := by
  simp [encodeMutation, mutationSize]

/-- Thirty-two bytes are the fields of a mutation and three reserved bytes. -/
theorem exists_mutation (h : bytes.length = mutationSize) :
    ∃ m : Mutation, ∃ reserved : Bytes, reserved.length = 3 ∧ bytes = putUint64 m.recordID ++ (putUint64 m.newAddr ++
      (putUint64 m.expectedOldAddr ++ (m.operation :: (putUint32 m.physicalSize ++ reserved)))) := by
  have hlen : bytes.length = 32 := h
  obtain ⟨recordID, rest, rfl, h1⟩ := exists_uint64 bytes (by omega)
  obtain ⟨newAddr, rest, rfl, h2⟩ := exists_uint64 rest (by omega)
  obtain ⟨oldAddr, rest, rfl, h3⟩ := exists_uint64 rest (by omega)
  obtain ⟨operation, rest, rfl, h4⟩ := exists_byte rest (by omega)
  obtain ⟨physicalSize, rest, rfl, h5⟩ := exists_uint32 rest (by omega)
  exact ⟨⟨recordID, newAddr, oldAddr, operation, physicalSize⟩, rest, by omega, rfl⟩

/-- What a decoder does with the fields of a mutation. -/
theorem decodeMutation_eq {reserved : Bytes} (hreserved : reserved.length = 3)
    (h : slice src off (off + mutationSize) = (.ok (putUint64 m.recordID ++ (putUint64 m.newAddr ++
      (putUint64 m.expectedOldAddr ++ (m.operation :: (putUint32 m.physicalSize ++ reserved))))) : Decoder Bytes)) :
    decodeMutation src off =
      rejectIf (allZero reserved = false) (.corrupt "mutation reserved bytes") >>= fun _ => .ok m := by
  have hslice : (slice reserved 0 3 : Decoder Bytes) = .ok reserved := slice_whole hreserved
  unfold decodeMutation
  rw [h]
  simp [hslice, pure, Except.pure]

theorem decodeMutation_encode : decodeMutation (pre ++ (encodeMutation m ++ post)) pre.length = .ok m := by
  have hslice : (slice (pre ++ (encodeMutation m ++ post)) pre.length (pre.length + mutationSize) : Decoder Bytes) =
      .ok (encodeMutation m) := slice_eq_field rfl length_encodeMutation
  rw [decodeMutation_eq (length_zeros 3) hslice]
  rfl

theorem slice_of_decodeMutation (h : decodeMutation src off = .ok m) :
    slice src off (off + mutationSize) = (.ok (encodeMutation m) : Decoder Bytes) := by
  obtain ⟨entry, hentry, -⟩ := bind_eq_ok.mp h
  have hlen : entry.length = mutationSize := by
    rw [(slice_eq_ok hentry).2.2.2, Nat.add_sub_cancel_left]
  obtain ⟨m', reserved, hreserved, rfl⟩ := exists_mutation hlen
  rw [decodeMutation_eq hreserved hentry, bind_eq_ok] at h
  obtain ⟨_, hzero, hm⟩ := h
  cases hm
  rw [rejectIf_eq_ok, Bool.not_eq_false] at hzero
  rw [hentry, eq_zeros_of_allZero hzero, hreserved]
  simp [encodeMutation]

theorem decodeMutations_encode (pre post : Bytes) (ms : List Mutation) :
    decodeMutations (pre ++ (ms.flatMap encodeMutation ++ post)) ms.length pre.length = .ok ms := by
  induction ms generalizing pre with
  | nil => rfl
  | cons m rest ih =>
    have hshift := ih (pre ++ encodeMutation m)
    rw [length_append, length_encodeMutation, append_assoc] at hshift
    rw [length_cons, flatMap_cons, append_assoc, decodeMutations, decodeMutation_encode, ok_bind,
      hshift]
    rfl

theorem drop_of_decodeMutations (h : decodeMutations src count off = .ok ms) :
    ms.length = count ∧ src.drop off = ms.flatMap encodeMutation ++ src.drop (off + count * mutationSize) := by
  induction count generalizing off ms with
  | zero =>
    cases h
    simp
  | succ count ih =>
    obtain ⟨m, hm, h⟩ := bind_eq_ok.mp h
    obtain ⟨rest, hrest, h⟩ := bind_eq_ok.mp h
    cases h
    obtain ⟨hlen, hdrop⟩ := ih hrest
    refine ⟨by rw [length_cons, hlen], ?_⟩
    rw [drop_of_slice (slice_of_decodeMutation hm), hdrop, flatMap_cons, append_assoc,
      Nat.add_assoc, Nat.succ_mul, Nat.add_comm mutationSize]

/-! ## §3 — Descriptors -/

@[simp] theorem length_encodeDescriptorHead : (encodeDescriptorHead d).length = descriptorHeadSize := by
  simp [encodeDescriptorHead, descriptorHeadSize]

@[simp] theorem length_encodeDescriptor : (encodeDescriptor d).length = d.size := by
  have hmutations : (d.mutations.flatMap encodeMutation).length = d.mutations.length * mutationSize := by
    induction d.mutations with
    | nil => rfl
    | cons m rest ih =>
      rw [flatMap_cons, length_append, length_encodeMutation, ih, length_cons, Nat.succ_mul,
        Nat.add_comm]
  rw [encodeDescriptor, length_append, length_encodeDescriptorHead, hmutations, Descriptor.size]

/-- The raw fields of the head of a descriptor. -/
structure HeadFields where
  kind : UInt8
  flags : UInt8
  headSize : UInt16
  count : UInt32
  batchID : UInt64
  commitSeq : UInt64
  logicalPayloadBytes : UInt64
  size : UInt32
  reserved : UInt32

def HeadFields.put (f : HeadFields) : Bytes :=
  f.kind :: f.flags :: (putUint16 f.headSize ++ (putUint32 f.count ++ (putUint64 f.batchID ++
    (putUint64 f.commitSeq ++ (putUint64 f.logicalPayloadBytes ++ (putUint32 f.size ++ putUint32 f.reserved))))))

theorem exists_headFields (h : bytes.length = descriptorHeadSize) : ∃ f : HeadFields, bytes = f.put := by
  have hlen : bytes.length = 40 := h
  obtain ⟨kind, rest, rfl, h1⟩ := exists_byte bytes (by omega)
  obtain ⟨flags, rest, rfl, h2⟩ := exists_byte rest (by omega)
  obtain ⟨headSize, rest, rfl, h3⟩ := exists_uint16 rest (by omega)
  obtain ⟨count, rest, rfl, h4⟩ := exists_uint32 rest (by omega)
  obtain ⟨batchID, rest, rfl, h5⟩ := exists_uint64 rest (by omega)
  obtain ⟨commitSeq, rest, rfl, h6⟩ := exists_uint64 rest (by omega)
  obtain ⟨logical, rest, rfl, h7⟩ := exists_uint64 rest (by omega)
  obtain ⟨size, rest, rfl, h8⟩ := exists_uint32 rest (by omega)
  obtain ⟨reserved, rest, rfl, h9⟩ := exists_uint32 rest (by omega)
  have hend : rest = [] := length_eq_zero_iff.mp (by omega)
  refine ⟨⟨kind, flags, headSize, count, batchID, commitSeq, logical, size, reserved⟩, ?_⟩
  rw [hend, append_nil]
  rfl

/-- What a decoder does with the fields of a descriptor's head. -/
theorem decodeDescriptor_eq {f : HeadFields} (hoff : off + descriptorHeadSize ≤ src.length)
    (h : slice src off (off + descriptorHeadSize) = (.ok f.put : Decoder Bytes)) :
    decodeDescriptor src maxMutations off total = (do
      rejectIf (f.flags ≠ 0 ∨ f.headSize ≠ .ofNat descriptorHeadSize ∨ f.reserved ≠ 0)
        (.corrupt "descriptor header fields")
      rejectIf (descriptorSize f.count.toNat ≠ some f.size.toNat ∨ src.length - off < f.size.toNat ∨
        maxMutations - total < f.count.toNat) (.corrupt "descriptor size")
      let mutations ← decodeMutations src f.count.toNat (off + descriptorHeadSize)
      return (⟨f.kind, f.batchID, f.commitSeq, f.logicalPayloadBytes, mutations⟩, f.size.toNat)) := by
  have hthere : ¬ (src.length < off ∨ src.length - off < descriptorHeadSize) := by omega
  unfold decodeDescriptor
  rw [rejectIf_of_not hthere, h]
  simp [HeadFields.put]

/-- The fields an encoder writes for a descriptor. -/
def Descriptor.fields (d : Descriptor) : HeadFields :=
  ⟨d.kind, 0, .ofNat descriptorHeadSize, .ofNat d.mutations.length, d.batchID, d.commitSeq, d.logicalPayloadBytes,
    .ofNat ((descriptorSize d.mutations.length).getD 0), 0⟩

theorem encodeDescriptorHead_eq : encodeDescriptorHead d = d.fields.put := by
  simp [encodeDescriptorHead, Descriptor.fields, HeadFields.put]

/-- The two numbers of a descriptor's head that depend on its mutations. -/
theorem fields_of_size (h : d.size ≤ maxUint32) :
    d.fields.count.toNat = d.mutations.length ∧ d.fields.size.toNat = d.size := by
  have hcount : d.mutations.length ≤ d.size := by
    simp only [Descriptor.size, mutationSize]
    omega
  have hsize : (descriptorSize d.mutations.length).getD 0 = d.size := by
    rw [descriptorSize_eq_some.mpr ⟨h, rfl⟩]
    rfl
  have hbound : maxUint32 < 2 ^ 32 := by decide
  constructor
  · exact toNat_ofNat_uint32 (by omega)
  · simp only [Descriptor.fields, hsize]
    exact toNat_ofNat_uint32 (by omega)

theorem decodeDescriptor_encode (pre post : Bytes) (hsize : d.size ≤ maxUint32) (hroom : total + d.mutations.length ≤ maxMutations) :
    decodeDescriptor (pre ++ (encodeDescriptor d ++ post)) maxMutations pre.length total = .ok (d, d.size) := by
  obtain ⟨hcount, hfield⟩ := fields_of_size hsize
  have hmutations := decodeMutations_encode (pre ++ encodeDescriptorHead d) post d.mutations
  rw [length_append, length_encodeDescriptorHead, append_assoc] at hmutations
  have hhead : (slice (pre ++ (encodeDescriptorHead d ++ (d.mutations.flatMap encodeMutation ++ post))) pre.length
      (pre.length + descriptorHeadSize) : Decoder Bytes) = .ok (encodeDescriptorHead d) :=
    slice_eq_field rfl length_encodeDescriptorHead
  rw [encodeDescriptorHead_eq] at hhead hmutations
  have hlen : (pre ++ (encodeDescriptor d ++ post)).length = pre.length + (d.size + post.length) := by
    rw [length_append, length_append, length_encodeDescriptor]
  have hhead_le : descriptorHeadSize ≤ d.size := Nat.le_add_right _ _
  rw [decodeDescriptor_eq (f := d.fields) (by omega), hcount, hfield, rejectIf_of_not, rejectIf_of_not]
  · rw [encodeDescriptor, encodeDescriptorHead_eq, append_assoc, hmutations]
    rfl
  · rw [descriptorSize_eq_some.mpr ⟨hsize, rfl⟩, hlen]
    simp only [Descriptor.size, ne_eq, not_true_eq_false, false_or, not_or, not_lt]
    omega
  · simp [Descriptor.fields]
  · rw [encodeDescriptor, encodeDescriptorHead_eq, append_assoc]
    exact hhead

theorem drop_of_decodeDescriptor (h : decodeDescriptor src maxMutations off total = .ok (d, size)) :
    size = d.size ∧ off + d.size ≤ src.length ∧ d.size ≤ maxUint32 ∧ d.mutations.length ≤ maxMutations - total ∧
      src.drop off = encodeDescriptor d ++ src.drop (off + d.size) := by
  obtain ⟨_, hthere, hrest⟩ := bind_eq_ok.mp h
  obtain ⟨headerBytes, hslice, -⟩ := bind_eq_ok.mp hrest
  rw [rejectIf_eq_ok] at hthere
  have hlen : headerBytes.length = descriptorHeadSize := by
    rw [(slice_eq_ok hslice).2.2.2, Nat.add_sub_cancel_left]
  obtain ⟨f, rfl⟩ := exists_headFields hlen
  rw [decodeDescriptor_eq (by omega) hslice] at h
  obtain ⟨_, hfields, h⟩ := bind_eq_ok.mp h
  obtain ⟨_, hsizes, h⟩ := bind_eq_ok.mp h
  obtain ⟨mutations, hmutations, h⟩ := bind_eq_ok.mp h
  cases h
  simp only [rejectIf_eq_ok, not_or, ne_eq, not_not, not_lt] at hfields hsizes
  obtain ⟨hflags, hhead, hreserved⟩ := hfields
  obtain ⟨hsize, hroom, hcount⟩ := hsizes
  obtain ⟨hlength, hdrop⟩ := drop_of_decodeMutations hmutations
  obtain ⟨hmax, hsize⟩ := descriptorSize_eq_some.mp hsize
  -- the fields of the head are the ones the encoder writes for this descriptor
  have hput : f.put = encodeDescriptorHead ⟨f.kind, f.batchID, f.commitSeq, f.logicalPayloadBytes, mutations⟩ := by
    rw [encodeDescriptorHead_eq]
    have hfieldCount : UInt32.ofNat mutations.length = f.count := by rw [hlength, UInt32.ofNat_toNat]
    have hfieldSize : UInt32.ofNat ((descriptorSize mutations.length).getD 0) = f.size := by
      rw [descriptorSize_eq_some.mpr ⟨by rw [hlength]; exact hmax, rfl⟩, hlength, Option.getD_some, ← hsize,
        UInt32.ofNat_toNat]
    simp only [Descriptor.fields, hfieldCount, hfieldSize, ← hhead, ← hflags]
    cases f
    simp_all
  have hdsize : f.size.toNat = descriptorHeadSize + mutations.length * mutationSize := by rw [hlength, hsize]
  refine ⟨hdsize, ?_, ?_, ?_, ?_⟩
  · simp only [Descriptor.size]
    omega
  · simp only [Descriptor.size]
    omega
  · simp only [hlength]
    omega
  · rw [drop_of_slice hslice, hdrop, hput, encodeDescriptor, append_assoc, Descriptor.size, hlength,
      Nat.add_assoc]

theorem decodeDescriptors_encode (pre post : Bytes) (ds : List Descriptor) (total : Nat) (hsizes : ∀ d ∈ ds, d.size ≤ maxUint32)
    (hroom : total + mutationCount ds ≤ maxMutations) :
    decodeDescriptors (pre ++ (ds.flatMap encodeDescriptor ++ post)) maxMutations ds.length pre.length total =
      .ok (ds, pre.length + (ds.map Descriptor.size).sum, total + mutationCount ds) := by
  induction ds generalizing pre total with
  | nil => rfl
  | cons d rest ih =>
    simp only [mutationCount, map_cons, sum_cons] at hroom
    have hshift := ih (pre ++ encodeDescriptor d) (total + d.mutations.length)
      (fun d' hd' => hsizes d' (mem_cons_of_mem _ hd')) (by simp only [mutationCount]; omega)
    rw [length_append, length_encodeDescriptor, append_assoc] at hshift
    have hfirst := decodeDescriptor_encode pre (rest.flatMap encodeDescriptor ++ post)
      (hsizes d (mem_cons_self ..)) (show total + d.mutations.length ≤ maxMutations by omega)
    rw [length_cons, flatMap_cons, append_assoc, decodeDescriptors, hfirst, ok_bind]
    simp only [hshift, ok_bind, pure, Except.pure, mutationCount, map_cons, sum_cons, Nat.add_assoc]

theorem drop_of_decodeDescriptors {last t : Nat}
    (h : decodeDescriptors src maxMutations count off total = .ok (ds, last, t)) :
    ds.length = count ∧ last = off + (ds.map Descriptor.size).sum ∧ t = total + mutationCount ds ∧
      (∀ d ∈ ds, d.size ≤ maxUint32) ∧ src.drop off = ds.flatMap encodeDescriptor ++ src.drop last := by
  induction count generalizing off total ds with
  | zero =>
    cases h
    simp [mutationCount]
  | succ count ih =>
    obtain ⟨⟨d, size⟩, hd, h⟩ := bind_eq_ok.mp h
    obtain ⟨⟨rest, last', t'⟩, hrest, h⟩ := bind_eq_ok.mp h
    cases h
    obtain ⟨rfl, -, hmax, -, hdrop⟩ := drop_of_decodeDescriptor hd
    obtain ⟨hlen, hlast, ht, hsizes, hdrops⟩ := ih hrest
    refine ⟨by rw [length_cons, hlen], ?_, ?_, ?_, ?_⟩
    · rw [hlast, map_cons, sum_cons, Nat.add_assoc]
    · rw [ht, mutationCount, mutationCount, map_cons, sum_cons, Nat.add_assoc]
    · simp only [mem_cons, forall_eq_or_imp]
      exact ⟨hmax, hsizes⟩
    · rw [hdrop, hdrops, flatMap_cons, append_assoc]

/-! ## §4 — The common header -/

section Header

variable {typ : UInt8} {headerSize : Nat} {h : Header}

@[simp] theorem length_encodeHeader : (encodeHeader typ headerSize size).length = commonHeaderSize := by
  simp [encodeHeader, protocolMagic, commonHeaderSize]

/-- What a decoder does with the fields of the common header. -/
theorem decodeHeader_eq {magic rest : Bytes} {version hsize reserved : UInt16} {t flags : UInt8} {tsize : UInt32}
    (hmagic : magic.length = 4) (hmax : src.length ≤ maxUint32)
    (hsrc : src = magic ++ (putUint16 version ++ (t :: flags :: (putUint16 hsize ++ (putUint16 reserved ++
      (putUint32 tsize ++ rest)))))) :
    decodeHeader src typ headerSize = (do
      rejectIf (magic ≠ protocolMagic) (.corrupt "protocol magic or size")
      rejectIf (version ≠ formatVersion) .unsupported
      rejectIf (t ≠ typ ∨ flags ≠ 0 ∨ hsize ≠ .ofNat headerSize ∨ reserved ≠ 0 ∨ tsize ≠ .ofNat src.length ∨
        src.length < headerSize) (.corrupt "protocol header fields")
      return ⟨t, hsize, tsize⟩) := by
  have hlen : src.length = 16 + rest.length := by
    simp [hsrc, hmagic]
    omega
  have hthere : ¬ (src.length < commonHeaderSize ∨ maxUint32 < src.length) := by
    simp only [commonHeaderSize]
    omega
  unfold decodeHeader
  rw [rejectIf_of_not hthere]
  generalize hn : src.length = n
  subst hsrc
  simp [hmagic, slice_field hmagic]

theorem decodeHeader_encode {rest : Bytes} (hsrc : src = encodeHeader typ headerSize src.length ++ rest)
    (hmax : src.length ≤ maxUint32) (hsize : headerSize ≤ src.length) :
    ∃ h, decodeHeader src typ headerSize = .ok h := by
  refine ⟨⟨typ, .ofNat headerSize, .ofNat src.length⟩, ?_⟩
  rw [decodeHeader_eq (show protocolMagic.length = 4 from rfl) hmax hsrc]
  rw [rejectIf_of_not (by simp), rejectIf_of_not (by simp), rejectIf_of_not (by simpa using hsize)]
  rfl

theorem exists_of_decodeHeader (hd : decodeHeader src typ headerSize = .ok h) :
    src.length ≤ maxUint32 ∧ headerSize ≤ src.length ∧
      ∃ rest, src = encodeHeader typ headerSize src.length ++ rest := by
  obtain ⟨_, hthere, -⟩ := bind_eq_ok.mp hd
  rw [rejectIf_eq_ok] at hthere
  have hlen : 16 ≤ src.length ∧ src.length ≤ maxUint32 := by
    simp only [commonHeaderSize] at hthere
    omega
  obtain ⟨magic, rest, hsrc, hmagic, h1⟩ := exists_field src 4 (by omega)
  obtain ⟨version, rest, rfl, h2⟩ := exists_uint16 rest (by omega)
  obtain ⟨t, rest, rfl, h3⟩ := exists_byte rest (by omega)
  obtain ⟨flags, rest, rfl, h4⟩ := exists_byte rest (by omega)
  obtain ⟨hsize, rest, rfl, h5⟩ := exists_uint16 rest (by omega)
  obtain ⟨reserved, rest, rfl, h6⟩ := exists_uint16 rest (by omega)
  obtain ⟨tsize, rest, rfl, h7⟩ := exists_uint32 rest (by omega)
  rw [decodeHeader_eq hmagic hlen.2 hsrc] at hd
  obtain ⟨_, hm, hd⟩ := bind_eq_ok.mp hd
  obtain ⟨_, hv, hd⟩ := bind_eq_ok.mp hd
  obtain ⟨_, hfields, -⟩ := bind_eq_ok.mp hd
  simp only [rejectIf_eq_ok, not_or, ne_eq, not_not, not_lt] at hm hv hfields
  obtain ⟨rfl, rfl, rfl, rfl, rfl, hle⟩ := hfields
  refine ⟨hlen.2, hle, rest, ?_⟩
  rw [encodeHeader, ← hm, ← hv]
  simpa only [append_assoc, cons_append, nil_append] using hsrc

end Header

/-! ## §5 — What the checks guarantee -/

variable {previous : Option UInt64}

theorem validMutations_iff {kind : UInt8} : validMutations kind previous ms = true ↔
    (∀ id ∈ previous, ∀ m ∈ ms, id < m.recordID) ∧ (ms.map Mutation.recordID).Pairwise (· < ·) ∧
      ∀ m ∈ ms, m.recordID ≠ 0 ∧ validMutation kind m = true := by
  induction ms generalizing previous with
  | nil => simp [validMutations]
  | cons m rest ih =>
    simp only [validMutations, Bool.and_eq_true, decide_eq_true_eq, Option.all_eq_true, ih, Option.mem_some_iff, map_cons,
      pairwise_cons, forall_mem_cons, forall_mem_map, forall_eq']
    constructor
    · rintro ⟨⟨⟨hid, hprev⟩, hm⟩, hbelow, hsorted, hall⟩
      exact ⟨fun id hmem => ⟨hprev id hmem, fun m' hm' => UInt64.lt_trans (hprev id hmem) (hbelow m' hm')⟩,
        ⟨hbelow, hsorted⟩, ⟨hid, hm⟩, hall⟩
    · rintro ⟨hprev, ⟨hbelow, hsorted⟩, ⟨hid, hm⟩, hall⟩
      exact ⟨⟨⟨hid, fun id hmem => (hprev id hmem).1⟩, hm⟩, hbelow, hsorted, hall⟩

/-- One sequence number follows another. -/
def Follows (a b : UInt64) : Prop := b.toNat = a.toNat + 1

theorem follows_iff {a b : UInt64} : a.toNat ≠ maxUint64 ∧ b = a + 1 ↔ Follows a b := by
  have ha := a.toNat_lt
  have hb := b.toNat_lt
  have hone : (1 : UInt64).toNat = 1 := rfl
  rw [Follows, ← UInt64.toNat_inj, UInt64.toNat_add, hone]
  simp only [maxUint64]
  omega

variable {batchIDs : List UInt64}

theorem validFrom_iff : validFrom previous batchIDs ds = true ↔
    (∀ d ∈ ds, d.batchID ≠ 0 ∧ d.commitSeq ≠ 0 ∧ d.batchID ∉ batchIDs ∧
      (d.kind = descriptorRelocation → d.mutations ≠ []) ∧ validMutations d.kind none d.mutations = true) ∧
    (ds.map Descriptor.batchID).Nodup ∧ (previous.toList ++ ds.map Descriptor.commitSeq).IsChain Follows := by
  induction ds generalizing previous batchIDs with
  | nil => cases previous <;> simp [validFrom]
  | cons d rest ih =>
    have hchain : (previous.toList ++ (d :: rest).map Descriptor.commitSeq).IsChain Follows ↔
        (∀ seq ∈ previous, Follows seq d.commitSeq) ∧
          ((some d.commitSeq).toList ++ rest.map Descriptor.commitSeq).IsChain Follows := by
      cases previous <;> simp
    have hseq : (previous.all fun seq => seq.toNat ≠ maxUint64 && d.commitSeq = seq + 1) = true ↔
        ∀ seq ∈ previous, Follows seq d.commitSeq := by
      simp [Option.all_eq_true, follows_iff]
    have hempty : (!(decide (d.kind = descriptorRelocation) && d.mutations.isEmpty)) = true ↔ (d.kind = descriptorRelocation → d.mutations ≠ []) := by
      simp [imp_iff_not_or]
    rw [hchain, validFrom]
    simp only [Bool.and_eq_true, hseq, hempty, ih, decide_eq_true_eq]
    simp only [map_cons, nodup_cons, mem_cons, not_or, mem_map, not_exists, not_and, Bool.not_eq_true', contains_eq_mem, decide_eq_false_iff_not]
    grind

/-- A chain of successors is a range. -/
theorem isChain_succ_iff {l : List Nat} : l.IsChain (fun a b => b = a + 1) ↔ l = range' (l.headD 0) l.length := by
  induction l with
  | nil => simp
  | cons a rest ih => 
    cases rest with
    | nil => simp
    | cons b rest =>
      rw [isChain_cons_cons, ih]
      simp only [headD_cons, length_cons, range'_succ, cons.injEq, true_and]
      constructor
      · rintro ⟨rfl, h⟩
        exact ⟨rfl, h⟩
      · rintro ⟨rfl, h⟩
        exact ⟨rfl, h⟩

/-- **What `validateDescriptors` checks**: growing identifiers in every descriptor, different batches, and sequence
numbers without a gap. -/
theorem validateDescriptors_iff : validateDescriptors ds = true ↔ ds ≠ [] ∧
    (∀ d ∈ ds, d.batchID ≠ 0 ∧ d.commitSeq ≠ 0 ∧ (d.kind = descriptorRelocation → d.mutations ≠ []) ∧
      validMutations d.kind none d.mutations = true) ∧
    (ds.map Descriptor.batchID).Nodup ∧
    ds.map (fun d => d.commitSeq.toNat) = range' ((ds.map fun d => d.commitSeq.toNat).headD 0) ds.length := by
  have hchain : (ds.map Descriptor.commitSeq).IsChain Follows ↔
      (ds.map fun d => d.commitSeq.toNat).IsChain fun a b => b = a + 1 := by
    rw [isChain_map, isChain_map]
    rfl
  rw [validateDescriptors, Bool.and_eq_true, validFrom_iff, Option.toList_none, nil_append, hchain, isChain_succ_iff,
    length_map]
  simp

theorem validateDescriptors_seqs (h : validateDescriptors ds = true) :
    ds.map (fun d => d.commitSeq.toNat) =
      List.range' ((ds.head?.map Descriptor.commitSeq).getD 0).toNat ds.length := by
  obtain ⟨-, -, -, hseqs⟩ := validateDescriptors_iff.mp h
  cases ds with
  | nil => rfl
  | cons d rest => exact hseqs

theorem validateDescriptors_head (h : validateDescriptors ds = true) :
    ∃ seq, ds.head?.map Descriptor.commitSeq = some seq ∧ seq ≠ 0 := by
  obtain ⟨hne, hmem, -⟩ := validateDescriptors_iff.mp h
  cases ds with
  | nil => exact absurd rfl hne
  | cons d rest => exact ⟨d.commitSeq, rfl, (hmem d mem_cons_self).2.1⟩

/-- The mutations of a descriptor have growing identifiers and pass the check of its kind. -/
theorem validateDescriptors_mem (h : validateDescriptors ds = true) :
    ∀ d ∈ ds, (d.kind = descriptorRelocation → d.mutations ≠ []) ∧
      (d.mutations.map Mutation.recordID).Pairwise (· < ·) ∧ ∀ m ∈ d.mutations, validMutation d.kind m = true := by
  intro d hd
  obtain ⟨-, hmem, -⟩ := validateDescriptors_iff.mp h
  obtain ⟨-, -, hempty, hmutations⟩ := hmem d hd
  obtain ⟨-, hsorted, hall⟩ := validMutations_iff.mp hmutations
  exact ⟨hempty, hsorted, fun m hm => (hall m hm).2⟩

/-! ## §6 — Reads stay inside the input -/

theorem decodeMutation_inRange (h : off + mutationSize ≤ src.length) : InRange (decodeMutation src off) := by
  refine (InRange.slice (Nat.le_add_right _ _) h).bind fun entry hentry => ?_
  have hlen : entry.length = 32 := by
    rw [(slice_eq_ok hentry).2.2.2, Nat.add_sub_cancel_left, mutationSize]
  refine (InRange.slice (by omega) (by omega)).bind fun _ _ => InRange.rejectIf.bind fun _ _ => ?_
  refine (InRange.uint64At (by omega)).bind fun _ _ => (InRange.uint64At (by omega)).bind fun _ _ => ?_
  refine (InRange.uint64At (by omega)).bind fun _ _ => (InRange.byteAt (by omega)).bind fun _ _ => ?_
  exact (InRange.uint32At (by omega)).bind fun _ _ => .ok _

theorem decodeMutations_inRange (h : off + count * mutationSize ≤ src.length) :
    InRange (decodeMutations src count off) := by
  induction count generalizing off with
  | zero => exact .ok _
  | succ count ih =>
    rw [Nat.succ_mul] at h
    exact (decodeMutation_inRange (by omega)).bind fun _ _ => (ih (by omega)).bind fun _ _ => .ok _

theorem decodeDescriptor_inRange : InRange (decodeDescriptor src maxMutations off total) := by
  refine InRange.rejectIf.bind fun _ hthere => ?_
  rw [rejectIf_eq_ok] at hthere
  refine (InRange.slice (Nat.le_add_right _ _) (by omega)).bind fun entry hentry => ?_
  have hlen : entry.length = 40 := by
    rw [(slice_eq_ok hentry).2.2.2, Nat.add_sub_cancel_left, descriptorHeadSize]
  refine (InRange.byteAt (by omega)).bind fun _ _ => (InRange.uint16At (by omega)).bind fun _ _ => ?_
  refine (InRange.uint32At (by omega)).bind fun _ _ => InRange.rejectIf.bind fun _ _ => ?_
  refine (InRange.uint32At (by omega)).bind fun mutations _ => (InRange.uint32At (by omega)).bind fun size _ => ?_
  refine InRange.rejectIf.bind fun _ hsize => ?_
  refine (InRange.byteAt (by omega)).bind fun _ _ => (InRange.uint64At (by omega)).bind fun _ _ => ?_
  refine (InRange.uint64At (by omega)).bind fun _ _ => (InRange.uint64At (by omega)).bind fun _ _ => ?_
  -- the size field was compared with the number of mutations and with the bytes that are left
  simp only [rejectIf_eq_ok, not_or, ne_eq, not_not, not_lt] at hsize
  obtain ⟨-, hfit⟩ := descriptorSize_eq_some.mp hsize.1
  exact (decodeMutations_inRange (by omega)).bind fun _ _ => .ok _

theorem decodeDescriptors_inRange : InRange (decodeDescriptors src maxMutations count off total) := by
  induction count generalizing off total with
  | zero => exact .ok _
  | succ count ih => exact decodeDescriptor_inRange.bind fun _ _ => ih.bind fun _ _ => .ok _

theorem decodeHeader_inRange {typ : UInt8} {headerSize : Nat} : InRange (decodeHeader src typ headerSize) := by
  refine InRange.rejectIf.bind fun _ hthere => ?_
  have hlen : 16 ≤ src.length := by
    rw [rejectIf_eq_ok] at hthere
    simp only [commonHeaderSize] at hthere
    omega
  refine (InRange.slice (by omega) (by omega)).bind fun _ _ => InRange.rejectIf.bind fun _ _ => ?_
  refine (InRange.uint16At (by omega)).bind fun _ _ => InRange.rejectIf.bind fun _ _ => ?_
  refine (InRange.byteAt (by omega)).bind fun _ _ => (InRange.uint16At (by omega)).bind fun _ _ => ?_
  refine (InRange.uint32At (by omega)).bind fun _ _ => (InRange.byteAt (by omega)).bind fun _ _ => ?_
  exact (InRange.uint16At (by omega)).bind fun _ _ => InRange.rejectIf.bind fun _ _ => .ok _

theorem decodeCommitGroup_inRange {maxPayloadSize maxDescriptors : Nat} :
    InRange (decodeCommitGroup src maxPayloadSize maxDescriptors maxMutations) := by
  refine InRange.rejectIf.bind fun _ _ => decodeHeader_inRange.bind fun h hheader => ?_
  have hlen : 32 ≤ src.length := (exists_of_decodeHeader hheader).2.1
  refine (InRange.uint32At (by omega)).bind fun _ _ => (InRange.uint32At (by omega)).bind fun _ _ => ?_
  refine (InRange.uint64At (by omega)).bind fun _ _ => InRange.rejectIf.bind fun _ _ => ?_
  refine decodeDescriptors_inRange.bind fun _ _ => InRange.rejectIf.bind fun _ _ => ?_
  exact InRange.rejectIf.bind fun _ _ => InRange.rejectIf.bind fun _ _ => .ok _

/-! ## §7 — The group -/

variable {group : CommitGroup} {maxPayloadSize maxDescriptors : Nat}

/-- The bytes of a group behind the common header. -/
def groupBody (ds : List Descriptor) : Bytes :=
  putUint32 (.ofNat ds.length) ++ (putUint32 (.ofNat (mutationCount ds)) ++
    (putUint64 ((ds.head?.map Descriptor.commitSeq).getD 0) ++ ds.flatMap encodeDescriptor))

theorem length_flatMap_encodeDescriptor : (ds.flatMap encodeDescriptor).length = (ds.map Descriptor.size).sum := by
  induction ds with
  | nil => rfl
  | cons d rest ih =>
    rw [flatMap_cons, length_append, length_encodeDescriptor, ih, map_cons, sum_cons]

theorem length_groupBody (ds : List Descriptor) :
    commonHeaderSize + (groupBody ds).length = commitGroupHeadSize + (ds.map Descriptor.size).sum := by
  simp only [groupBody, length_append, length_putUint32, length_putUint64, length_flatMap_encodeDescriptor,
    commonHeaderSize, commitGroupHeadSize]
  omega

theorem mutationCount_le (ds : List Descriptor) : mutationCount ds ≤ (ds.map Descriptor.size).sum := by
  induction ds with
  | nil => rfl
  | cons d rest ih =>
    simp only [mutationCount, map_cons, sum_cons, Descriptor.size, mutationSize] at ih ⊢
    omega

theorem length_le_sum_size (ds : List Descriptor) :
    descriptorHeadSize * ds.length ≤ (ds.map Descriptor.size).sum := by
  induction ds with
  | nil => rfl
  | cons d rest ih =>
    simp only [length_cons, map_cons, sum_cons, Descriptor.size, Nat.mul_succ] at ih ⊢
    omega

theorem size_le_sum (h : d ∈ ds) : d.size ≤ (ds.map Descriptor.size).sum := by
  induction ds with
  | nil => cases h
  | cons d' rest ih =>
    simp only [map_cons, sum_cons]
    rcases mem_cons.mp h with rfl | h
    · exact Nat.le_add_right _ _
    · exact Nat.le_trans (ih h) (Nat.le_add_left _ _)

/-- **When a group is encoded**, and to which bytes. -/
theorem encodeCommitGroup_eq_ok :
    encodeCommitGroup group maxPayloadSize = .ok bytes ↔
      bytes = encodeHeader recordTypeCommitGroup commitGroupHeadSize bytes.length ++ groupBody group.descriptors ∧
        bytes.length ≤ maxUint32 ∧ bytes.length ≤ maxPayloadSize ∧ validateDescriptors group.descriptors = true := by
  have hbody := length_groupBody group.descriptors
  have hcount := mutationCount_le group.descriptors
  have hshape : ∀ n,
      (encodeHeader recordTypeCommitGroup commitGroupHeadSize n ++ groupBody group.descriptors).length =
        commitGroupHeadSize + (group.descriptors.map Descriptor.size).sum := by
    intro n
    rw [length_append, length_encodeHeader, hbody]
  unfold encodeCommitGroup
  constructor
  · intro h
    split at h
    · cases h
    next total htotal =>
      obtain ⟨-, hsum, hmax⟩ := commitGroupPayloadSize_eq_ok.mp htotal
      split at h
      · cases h
      split at h
      · cases h
      split at h
      · cases h
      next hpayload hvalid _ =>
        have hbytes : bytes = encodeHeader recordTypeCommitGroup commitGroupHeadSize total ++
            groupBody group.descriptors := by
          rw [← Except.ok.inj h]
          simp only [groupBody, append_assoc]
        have hlen : bytes.length = total := by rw [hbytes, hshape, hsum]
        rw [hlen]
        exact ⟨hbytes, hmax, Nat.le_of_not_lt hpayload, by simpa using hvalid⟩
  · rintro ⟨hbytes, hmax, hpayload, hvalid⟩
    have hlen : bytes.length = commitGroupHeadSize + (group.descriptors.map Descriptor.size).sum := by
      rw [hbytes, hshape]
    have hne : group.descriptors ≠ [] := by
      rintro hnil
      rw [hnil] at hvalid
      cases hvalid
    rw [commitGroupPayloadSize_eq_ok.mpr ⟨hne, rfl, by omega⟩]
    dsimp only
    rw [if_neg (by omega), if_neg (by simp [hvalid]), if_neg (by omega), ← hlen]
    conv_rhs => rw [hbytes]
    simp only [groupBody, append_assoc]

/-- What a decoder does with a group whose common header is right. -/
theorem decodeCommitGroup_eq {c w : UInt32} {f : UInt64} {rest : Bytes}
    (hsrc : src = encodeHeader recordTypeCommitGroup commitGroupHeadSize src.length ++
      (putUint32 c ++ (putUint32 w ++ (putUint64 f ++ rest)))) (hmax : src.length ≤ maxUint32)
    (hpayload : src.length ≤ maxPayloadSize) :
    decodeCommitGroup src maxPayloadSize maxDescriptors maxMutations = (do
      rejectIf (c = 0 ∨ maxDescriptors < c.toNat ∨
        (src.length - commitGroupHeadSize) / descriptorHeadSize < c.toNat ∨ maxMutations < w.toNat ∨ f = 0)
        (.corrupt "commit group counts")
      let (descriptors, offset, totalMutations) ←
        decodeDescriptors src maxMutations c.toNat commitGroupHeadSize 0
      rejectIf (offset ≠ src.length ∨ totalMutations ≠ w.toNat)
        (.corrupt "commit group trailing bytes or mutation count")
      rejectIf (validateDescriptors descriptors = false) (.corrupt "commit group semantics")
      rejectIf ((descriptors.head?.map Descriptor.commitSeq) ≠ some f) (.corrupt "commit group first sequence")
      return ⟨descriptors⟩) := by
  have hhead : commitGroupHeadSize ≤ src.length := by
    rw [hsrc]
    simp only [length_append, length_encodeHeader, length_putUint32, length_putUint64, commitGroupHeadSize,
      commonHeaderSize]
    omega
  obtain ⟨h, hheader⟩ := decodeHeader_encode hsrc hmax hhead
  have hcount : (uint32At src 16 : Decoder UInt32) = .ok c := by
    rw [hsrc]
    simp [commonHeaderSize]
  have hwant : (uint32At src 20 : Decoder UInt32) = .ok w := by
    rw [hsrc]
    simp [commonHeaderSize]
  have hfirst : (uint64At src 24 : Decoder UInt64) = .ok f := by
    rw [hsrc]
    simp [commonHeaderSize]
  unfold decodeCommitGroup
  rw [rejectIf_of_not (Nat.not_lt.mpr hpayload), hheader, hcount, hwant, hfirst]
  rfl

/-- **Decoding what was encoded gives the group back.** -/
theorem decode_of_encodeCommitGroup (h : encodeCommitGroup group maxPayloadSize = .ok bytes)
    (hdescriptors : group.descriptors.length ≤ maxDescriptors)
    (hmutations : mutationCount group.descriptors ≤ maxMutations) :
    decodeCommitGroup bytes maxPayloadSize maxDescriptors maxMutations = .ok group := by
  obtain ⟨hbytes, hmax, hpayload, hvalid⟩ := encodeCommitGroup_eq_ok.mp h
  obtain ⟨ds⟩ := group
  dsimp only at hbytes hvalid hdescriptors hmutations
  have hlen : bytes.length = commitGroupHeadSize + (ds.map Descriptor.size).sum := by
    rw [hbytes, length_append, length_encodeHeader, length_groupBody]
  have hcountle := length_le_sum_size ds
  have hmutationle := mutationCount_le ds
  have hbound : maxUint32 < 2 ^ 32 := by decide
  have hc : (UInt32.ofNat ds.length).toNat = ds.length :=
    toNat_ofNat_uint32 (by simp only [descriptorHeadSize] at hcountle; omega)
  have hw : (UInt32.ofNat (mutationCount ds)).toNat = mutationCount ds := toNat_ofNat_uint32 (by omega)
  obtain ⟨seq, hfirst, hseq⟩ := validateDescriptors_head hvalid
  have hdecode : decodeDescriptors bytes maxMutations ds.length commitGroupHeadSize 0 =
      .ok (ds, bytes.length, mutationCount ds) := by
    -- the descriptors stand behind the sixteen bytes of the header and the three numbers of the group
    have hdescs := decodeDescriptors_encode (encodeHeader recordTypeCommitGroup commitGroupHeadSize bytes.length ++
        (putUint32 (.ofNat ds.length) ++ (putUint32 (.ofNat (mutationCount ds)) ++
          putUint64 ((ds.head?.map Descriptor.commitSeq).getD 0)))) [] ds 0
      (fun d hd => Nat.le_trans (size_le_sum hd) (by omega))
      (show 0 + mutationCount ds ≤ maxMutations by omega)
    simp only [append_nil, append_assoc, length_append, length_encodeHeader, length_putUint32,
      length_putUint64, Nat.zero_add] at hdescs
    rw [hlen]
    conv_lhs => rw [hbytes]
    exact hdescs
  have hzero : UInt32.ofNat ds.length ≠ 0 := by
    intro hzero
    rw [hzero] at hc
    rw [length_eq_zero_iff.mp hc.symm] at hfirst
    cases hfirst
  rw [decodeCommitGroup_eq hbytes hmax hpayload, hc, hw, hfirst, rejectIf_of_not, ok_bind, hdecode, ok_bind]
  · simp only [ne_eq, not_true_eq_false, or_self, hvalid, Bool.true_eq_false, hfirst, Option.getD_some, rejectIf,
      if_false]
    rfl
  · have hfit : ds.length ≤ (bytes.length - commitGroupHeadSize) / descriptorHeadSize := by
      rw [Nat.le_div_iff_mul_le (by decide), Nat.mul_comm]
      omega
    simp only [hzero, Option.getD_some, hseq, false_or, or_false, not_or, not_lt]
    exact ⟨hdescriptors, hfit, hmutations⟩

/-- **Encoding what was decoded gives the bytes back.** -/
theorem encode_of_decodeCommitGroup
    (h : decodeCommitGroup src maxPayloadSize maxDescriptors maxMutations = .ok group) :
    encodeCommitGroup group maxPayloadSize = .ok src := by
  obtain ⟨_, hpayload, hrest⟩ := bind_eq_ok.mp h
  obtain ⟨_, hheader, -⟩ := bind_eq_ok.mp hrest
  rw [rejectIf_eq_ok, not_lt] at hpayload
  obtain ⟨hmax, hhead, rest, hsrc⟩ := exists_of_decodeHeader hheader
  have hlen : 16 ≤ rest.length := by
    have hsum := congrArg List.length hsrc
    rw [length_append, length_encodeHeader] at hsum
    simp only [commitGroupHeadSize, commonHeaderSize] at hhead hsum
    omega
  obtain ⟨c, rest, rfl, h1⟩ := exists_uint32 rest (by omega)
  obtain ⟨w, rest, rfl, h2⟩ := exists_uint32 rest (by omega)
  obtain ⟨f, rest, rfl, h3⟩ := exists_uint64 rest (by omega)
  rw [decodeCommitGroup_eq hsrc hmax hpayload] at h
  obtain ⟨_, -, h⟩ := bind_eq_ok.mp h
  obtain ⟨⟨ds, offset, total⟩, hdescs, h⟩ := bind_eq_ok.mp h
  obtain ⟨_, hend, h⟩ := bind_eq_ok.mp h
  obtain ⟨_, hvalid, h⟩ := bind_eq_ok.mp h
  obtain ⟨_, hfirst, h⟩ := bind_eq_ok.mp h
  cases h
  simp only [rejectIf_eq_ok, ne_eq, not_or, not_not, Bool.not_eq_false] at hend hvalid hfirst
  obtain ⟨rfl, htotal⟩ := hend
  obtain ⟨hcount, -, hmutations, -, hdrop⟩ := drop_of_decodeDescriptors hdescs
  refine encodeCommitGroup_eq_ok.mpr ⟨?_, hmax, hpayload, hvalid⟩
  -- the three numbers of the group are the ones of the descriptors that were read
  have hc : UInt32.ofNat ds.length = c := by rw [hcount, UInt32.ofNat_toNat]
  have hw : UInt32.ofNat (mutationCount ds) = w := by
    rw [← UInt32.ofNat_toNat (x := w), ← htotal, hmutations, Nat.zero_add]
  have hbody : ds.flatMap encodeDescriptor = rest := by
    have hskip : src.drop commitGroupHeadSize = rest := by
      have hfront : src = (encodeHeader recordTypeCommitGroup commitGroupHeadSize src.length ++
          (putUint32 c ++ (putUint32 w ++ putUint64 f))) ++ rest := by
        simpa only [append_assoc] using hsrc
      conv_lhs => rw [hfront]
      exact drop_left' (by simp [commonHeaderSize, commitGroupHeadSize])
    rw [hskip, drop_length, append_nil] at hdrop
    exact hdrop.symm
  rw [groupBody, hc, hw, hfirst, hbody]
  exact hsrc

/-- **The codec of commit groups is a bijection** between the groups it encodes and the byte strings it
accepts, and it never reads outside its input. -/
theorem commitGroup_codec_bijective :
    (∀ group maxPayloadSize bytes, encodeCommitGroup group maxPayloadSize = .ok bytes →
      ∀ maxDescriptors maxMutations, group.descriptors.length ≤ maxDescriptors →
        mutationCount group.descriptors ≤ maxMutations →
        decodeCommitGroup bytes maxPayloadSize maxDescriptors maxMutations = .ok group) ∧
    (∀ src maxPayloadSize maxDescriptors maxMutations group,
      decodeCommitGroup src maxPayloadSize maxDescriptors maxMutations = .ok group →
        encodeCommitGroup group maxPayloadSize = .ok src ∧
        (∃ first, uint64At src 24 = (.ok first : Decoder UInt64) ∧
          group.descriptors.map (fun d => d.commitSeq.toNat) =
            List.range' first.toNat group.descriptors.length) ∧
        ∀ d ∈ group.descriptors, (d.mutations.map Mutation.recordID).Pairwise (· < ·)) ∧
    ∀ src maxPayloadSize maxDescriptors maxMutations,
      decodeCommitGroup src maxPayloadSize maxDescriptors maxMutations ≠ .error .outOfRange := by
  refine ⟨?_, ?_, ?_⟩
  · intro group maxPayloadSize bytes h maxDescriptors maxMutations hdescriptors hmutations
    exact decode_of_encodeCommitGroup h hdescriptors hmutations
  · intro src maxPayloadSize maxDescriptors maxMutations group h
    have hencode := encode_of_decodeCommitGroup h
    obtain ⟨hsrc, -, -, hvalid⟩ := encodeCommitGroup_eq_ok.mp hencode
    refine ⟨hencode, ⟨_, ?_, validateDescriptors_seqs hvalid⟩, fun d hd => (validateDescriptors_mem hvalid d hd).2.1⟩
    -- the first number stands behind the header and the two counts
    rw [hsrc, groupBody]
    simp [commonHeaderSize]
  · intro src maxPayloadSize maxDescriptors maxMutations
    exact decodeCommitGroup_inRange

end Ridstore.RecordCodec.Wire
