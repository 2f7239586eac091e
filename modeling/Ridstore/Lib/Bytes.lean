import Mathlib.Algebra.Ring.Nat
import Mathlib.Data.List.Basic

/-
# Ridstore.Lib.Bytes — byte strings, little-endian words and reads that can leave the range

A codec writes words of 16, 32 and 64 bits one after the other and reads them back at fixed offsets.  A
read outside the string is an outcome of its own, next to the errors the codec reports, so that a decoder
that never leaves its input can be told from one that does.  Every word has two rules: reading what was
put gives the word, and bytes of the right length are what putting their word gives.
-/

namespace Ridstore.Lib

open List

abbrev Bytes := List UInt8

/-! ## §1 — Little-endian numbers -/

/-- The lowest `width` bytes of a number, the lowest byte first. -/
def le : Nat → Nat → Bytes
  | 0, _ => []
  | width + 1, value => UInt8.ofNat value :: le width (value / 256)

/-- The number a byte string spells, the lowest byte first. -/
def fromLE : Bytes → Nat
  | [] => 0
  | byte :: rest => byte.toNat + 256 * fromLE rest

variable {bytes src pre post rest : Bytes} {width value start stop off : Nat}

@[simp] theorem length_le : (le width value).length = width := by
  induction width generalizing value with
  | zero => rfl
  | succ width ih => simp only [le, length_cons, ih]

theorem fromLE_lt (bytes : Bytes) : fromLE bytes < 256 ^ bytes.length := by
  induction bytes with
  | nil => simp [fromLE]
  | cons byte rest ih =>
    have hbyte := byte.toNat_lt
    simp only [fromLE, length_cons, Nat.pow_succ]
    omega

theorem fromLE_le (h : value < 256 ^ width) : fromLE (le width value) = value := by
  induction width generalizing value with
  | zero =>
    simp only [Nat.pow_zero, Nat.lt_one_iff] at h
    simp only [h, le, fromLE]
  | succ width ih =>
    have hrest : value / 256 < 256 ^ width := by
      rw [Nat.pow_succ] at h
      omega
    have hbyte : (UInt8.ofNat value).toNat = value % 256 := UInt8.toNat_ofNat'
    simp only [le, fromLE, ih hrest, hbyte]
    omega

theorem le_fromLE : le bytes.length (fromLE bytes) = bytes := by
  induction bytes with
  | nil => rfl
  | cons byte rest ih =>
    have hbyte := byte.toNat_lt
    have hlow : UInt8.ofNat (byte.toNat + 256 * fromLE rest) = byte := by
      apply UInt8.toNat_inj.mp
      rw [UInt8.toNat_ofNat']
      omega
    have hhigh : (byte.toNat + 256 * fromLE rest) / 256 = fromLE rest := by omega
    simp only [fromLE, length_cons, le, hlow, hhigh, ih]

/-! ## §2 — Words of three widths -/

def putUint16 (v : UInt16) : Bytes := le 2 v.toNat

def putUint32 (v : UInt32) : Bytes := le 4 v.toNat

def putUint64 (v : UInt64) : Bytes := le 8 v.toNat

def uint16 (bytes : Bytes) : UInt16 := .ofNat (fromLE bytes)

def uint32 (bytes : Bytes) : UInt32 := .ofNat (fromLE bytes)

def uint64 (bytes : Bytes) : UInt64 := .ofNat (fromLE bytes)

@[simp] theorem length_putUint16 (v : UInt16) : (putUint16 v).length = 2 := length_le

@[simp] theorem length_putUint32 (v : UInt32) : (putUint32 v).length = 4 := length_le

@[simp] theorem length_putUint64 (v : UInt64) : (putUint64 v).length = 8 := length_le

@[simp] theorem uint16_putUint16 (v : UInt16) : uint16 (putUint16 v) = v := by
  have hlt : v.toNat < 256 ^ 2 := v.toNat_lt
  rw [uint16, putUint16, fromLE_le hlt, UInt16.ofNat_toNat]

@[simp] theorem uint32_putUint32 (v : UInt32) : uint32 (putUint32 v) = v := by
  have hlt : v.toNat < 256 ^ 4 := v.toNat_lt
  rw [uint32, putUint32, fromLE_le hlt, UInt32.ofNat_toNat]

@[simp] theorem uint64_putUint64 (v : UInt64) : uint64 (putUint64 v) = v := by
  have hlt : v.toNat < 256 ^ 8 := v.toNat_lt
  rw [uint64, putUint64, fromLE_le hlt, UInt64.ofNat_toNat]

theorem putUint16_uint16 (h : bytes.length = 2) : putUint16 (uint16 bytes) = bytes := by
  have hlt : fromLE bytes < 2 ^ 16 := by simpa [h] using fromLE_lt bytes
  rw [putUint16, uint16, UInt16.toNat_ofNat_of_lt' hlt, ← h, le_fromLE]

theorem putUint32_uint32 (h : bytes.length = 4) : putUint32 (uint32 bytes) = bytes := by
  have hlt : fromLE bytes < 2 ^ 32 := by simpa [h] using fromLE_lt bytes
  rw [putUint32, uint32, UInt32.toNat_ofNat_of_lt' hlt, ← h, le_fromLE]

theorem putUint64_uint64 (h : bytes.length = 8) : putUint64 (uint64 bytes) = bytes := by
  have hlt : fromLE bytes < 2 ^ 64 := by simpa [h] using fromLE_lt bytes
  rw [putUint64, uint64, UInt64.toNat_ofNat_of_lt' hlt, ← h, le_fromLE]

theorem toNat_ofNat_uint32 (h : value < 2 ^ 32) : (UInt32.ofNat value).toNat = value :=
  UInt32.toNat_ofNat_of_lt' h

/-- Bytes long enough for a field start with one. -/
theorem exists_field (bytes : Bytes) (n : Nat) (h : n ≤ bytes.length) :
    ∃ field rest, bytes = field ++ rest ∧ field.length = n ∧ rest.length + n = bytes.length := by
  refine ⟨bytes.take n, bytes.drop n, (take_append_drop n bytes).symm, ?_, ?_⟩
  · rw [length_take, Nat.min_eq_left h]
  · rw [length_drop]
    omega

theorem exists_uint16 (bytes : Bytes) (h : 2 ≤ bytes.length) :
    ∃ v rest, bytes = putUint16 v ++ rest ∧ rest.length + 2 = bytes.length := by
  obtain ⟨field, rest, hbytes, hfield, hrest⟩ := exists_field bytes 2 h
  exact ⟨uint16 field, rest, by rw [putUint16_uint16 hfield, hbytes], hrest⟩

theorem exists_uint32 (bytes : Bytes) (h : 4 ≤ bytes.length) :
    ∃ v rest, bytes = putUint32 v ++ rest ∧ rest.length + 4 = bytes.length := by
  obtain ⟨field, rest, hbytes, hfield, hrest⟩ := exists_field bytes 4 h
  exact ⟨uint32 field, rest, by rw [putUint32_uint32 hfield, hbytes], hrest⟩

theorem exists_uint64 (bytes : Bytes) (h : 8 ≤ bytes.length) :
    ∃ v rest, bytes = putUint64 v ++ rest ∧ rest.length + 8 = bytes.length := by
  obtain ⟨field, rest, hbytes, hfield, hrest⟩ := exists_field bytes 8 h
  exact ⟨uint64 field, rest, by rw [putUint64_uint64 hfield, hbytes], hrest⟩

theorem exists_byte (bytes : Bytes) (h : 1 ≤ bytes.length) : ∃ v rest, bytes = v :: rest ∧ rest.length + 1 = bytes.length := by
  cases bytes with
  | nil => cases h
  | cons v rest => exact ⟨v, rest, rfl, rfl⟩

/-- Bytes that were allocated and never written. -/
def zeros (n : Nat) : Bytes := List.replicate n 0

@[simp] theorem length_zeros (n : Nat) : (zeros n).length = n := length_replicate

/-- A byte string without a set bit. -/
def allZero (bytes : Bytes) : Bool := bytes.all (· = 0)

theorem eq_zeros_of_allZero (h : allZero bytes = true) : bytes = zeros bytes.length := by
  rw [zeros, eq_replicate_iff]
  refine ⟨rfl, fun b hb => ?_⟩
  simpa using all_eq_true.mp h b hb

@[simp] theorem allZero_zeros (n : Nat) : allZero (zeros n) = true := by
  simp [allZero, zeros]

/-- One byte of the Castagnoli checksum, in its reflected form. -/
def crcByte (crc : UInt32) (byte : UInt8) : UInt32 :=
  (List.range 8).foldl (fun c _ => if c &&& 1 = 0 then c >>> 1 else (c >>> 1) ^^^ 0x82f63b78) (crc ^^^ byte.toUInt32)

/-- The CRC-32C of a byte string. -/
def crc32c (bytes : Bytes) : UInt32 := bytes.foldl crcByte 0xffffffff ^^^ 0xffffffff

/-- The check value of the checksum, that of the digits from one to nine. -/
example : crc32c [0x31, 0x32, 0x33, 0x34, 0x35, 0x36, 0x37, 0x38, 0x39] = 0xe3069283 := by decide +kernel

/-- Bytes with their checksum behind them. -/
def withCRC (bytes : Bytes) : Bytes := bytes ++ putUint32 (crc32c bytes)

@[simp] theorem length_withCRC (bytes : Bytes) : (withCRC bytes).length = bytes.length + 4 := by
  rw [withCRC, length_append, length_putUint32]

/-! ## §3 — Fallible reads -/

/-- How a decoder can stop: with an error it reports, or by reading outside its input. -/
inductive Fault (ε : Type)
  | failed (err : ε)
  | outOfRange
  deriving DecidableEq, Repr

variable {ε α β : Type}

/-- Report an error when a condition holds. -/
def rejectIf (bad : Prop) [Decidable bad] (err : ε) : Except (Fault ε) Unit :=
  if bad then .error (.failed err) else .ok ()

/-- `src[start:stop]`. -/
def slice (src : Bytes) (start stop : Nat) : Except (Fault ε) Bytes :=
  if start ≤ stop ∧ stop ≤ src.length then .ok ((src.take stop).drop start) else .error .outOfRange

/-- `src[off]`. -/
def byteAt (src : Bytes) (off : Nat) : Except (Fault ε) UInt8 :=
  match src[off]? with
  | some byte => .ok byte
  | none => .error .outOfRange

def uint16At (src : Bytes) (off : Nat) : Except (Fault ε) UInt16 := uint16 <$> slice src off (off + 2)

def uint32At (src : Bytes) (off : Nat) : Except (Fault ε) UInt32 := uint32 <$> slice src off (off + 4)

def uint64At (src : Bytes) (off : Nat) : Except (Fault ε) UInt64 := uint64 <$> slice src off (off + 8)

@[simp] theorem ok_bind (a : α) (f : α → Except (Fault ε) β) : (Except.ok a >>= f) = f a := rfl

@[simp] theorem error_bind (err : Fault ε) (f : α → Except (Fault ε) β) :
    ((Except.error err : Except (Fault ε) α) >>= f) = .error err := rfl

/-- A sequence of two steps that succeeds is two steps that do. -/
theorem bind_eq_ok {x : Except (Fault ε) α} {f : α → Except (Fault ε) β} {b : β} :
    (x >>= f) = .ok b ↔ ∃ a, x = .ok a ∧ f a = .ok b := by
  cases x with
  | error err => simp
  | ok a => simp

@[simp] theorem rejectIf_eq_ok {bad : Prop} [Decidable bad] {err : ε} {u : Unit} :
    rejectIf bad err = .ok u ↔ ¬ bad := by
  unfold rejectIf
  split <;> simp_all

theorem rejectIf_of_not {bad : Prop} [Decidable bad] {err : ε} (h : ¬ bad) :
    rejectIf bad err = .ok () := if_neg h

/-- A slice behind a field that starts the string. -/
@[simp] theorem slice_append (h : pre.length ≤ start) (hstop : start ≤ stop) :
    (slice (pre ++ rest) start stop : Except (Fault ε) Bytes) =
      slice rest (start - pre.length) (stop - pre.length) := by
  have hiff : stop ≤ (pre ++ rest).length ↔ stop - pre.length ≤ rest.length := by
    rw [length_append]
    omega
  simp only [slice, hiff, hstop, true_and, Nat.sub_le_sub_right hstop pre.length]
  split
  · rw [take_append, drop_append, drop_of_length_le (by rw [length_take]; omega),
      nil_append, length_take, Nat.min_eq_right (Nat.le_trans h hstop)]
  · rfl

theorem slice_field (h : pre.length = stop) : (slice (pre ++ rest) 0 stop : Except (Fault ε) Bytes) = .ok pre := by
  rw [slice, if_pos ⟨Nat.zero_le _, by rw [length_append]; omega⟩, drop_zero, ← h, take_left]

theorem slice_whole (h : bytes.length = stop) : (slice bytes 0 stop : Except (Fault ε) Bytes) = .ok bytes := by
  rw [slice, if_pos ⟨Nat.zero_le _, Nat.le_of_eq h.symm⟩, ← h, take_length, drop_zero]

theorem slice_eq_ok (h : slice src start stop = (.ok bytes : Except (Fault ε) Bytes)) :
    start ≤ stop ∧ stop ≤ src.length ∧ bytes = (src.take stop).drop start ∧ bytes.length = stop - start := by
  unfold slice at h
  split at h
  next hrange =>
    cases h
    refine ⟨hrange.1, hrange.2, rfl, ?_⟩
    rw [length_drop, length_take, Nat.min_eq_left hrange.2]
  next => cases h

theorem slice_eq_field {mid : Bytes} {n : Nat} (hpre : pre.length = start) (hmid : mid.length = n) :
    (slice (pre ++ (mid ++ post)) start (start + n) : Except (Fault ε) Bytes) = .ok mid := by
  rw [slice_append (Nat.le_of_eq hpre) (Nat.le_add_right _ _), hpre, Nat.sub_self, Nat.add_sub_cancel_left,
    slice_field hmid]

/-- A slice that is there is what comes next. -/
theorem drop_of_slice (h : slice src start stop = (.ok bytes : Except (Fault ε) Bytes)) :
    src.drop start = bytes ++ src.drop stop := by
  obtain ⟨hle, hstop, hbytes, -⟩ := slice_eq_ok h
  rw [hbytes, ← drop_append_of_le_length (by rw [length_take]; omega), take_append_drop]

/-- A cut file reads like the whole one before the cut. -/
theorem slice_of_cut {cut : Bytes} (hcut : cut <+: src) (hstop : stop ≤ cut.length) :
    (slice cut start stop : Except (Fault ε) Bytes) = slice src start stop := by
  obtain ⟨lost, rfl⟩ := hcut
  have hwhole : stop ≤ (cut ++ lost).length := by
    rw [length_append]
    omega
  simp only [slice, hstop, hwhole, and_true]
  rw [take_append_of_le_length hstop]

section Fields

variable (hskip : pre.length ≤ off)
include hskip

@[simp] theorem uint16At_append :
    (uint16At (pre ++ rest) off : Except (Fault ε) UInt16) = uint16At rest (off - pre.length) := by
  rw [uint16At, uint16At, slice_append hskip (Nat.le_add_right _ _), Nat.sub_add_comm hskip]

@[simp] theorem uint32At_append :
    (uint32At (pre ++ rest) off : Except (Fault ε) UInt32) = uint32At rest (off - pre.length) := by
  rw [uint32At, uint32At, slice_append hskip (Nat.le_add_right _ _), Nat.sub_add_comm hskip]

@[simp] theorem uint64At_append :
    (uint64At (pre ++ rest) off : Except (Fault ε) UInt64) = uint64At rest (off - pre.length) := by
  rw [uint64At, uint64At, slice_append hskip (Nat.le_add_right _ _), Nat.sub_add_comm hskip]

@[simp] theorem byteAt_append :
    (byteAt (pre ++ rest) off : Except (Fault ε) UInt8) = byteAt rest (off - pre.length) := by
  rw [byteAt, byteAt, List.getElem?_append_right hskip]

end Fields

section Bytes

variable {v : UInt8} (hskip : 0 < off)
include hskip

@[simp] theorem uint16At_cons : (uint16At (v :: rest) off : Except (Fault ε) UInt16) = uint16At rest (off - 1) :=
  uint16At_append (show [v].length ≤ off from hskip)

@[simp] theorem uint32At_cons : (uint32At (v :: rest) off : Except (Fault ε) UInt32) = uint32At rest (off - 1) :=
  uint32At_append (show [v].length ≤ off from hskip)

@[simp] theorem uint64At_cons : (uint64At (v :: rest) off : Except (Fault ε) UInt64) = uint64At rest (off - 1) :=
  uint64At_append (show [v].length ≤ off from hskip)

@[simp] theorem byteAt_cons : (byteAt (v :: rest) off : Except (Fault ε) UInt8) = byteAt rest (off - 1) :=
  byteAt_append (show [v].length ≤ off from hskip)

@[simp] theorem slice_cons (hstop : off ≤ stop) :
    (slice (v :: rest) off stop : Except (Fault ε) Bytes) = slice rest (off - 1) (stop - 1) :=
  slice_append (show [v].length ≤ off from hskip) hstop

end Bytes

@[simp] theorem uint16At_put (v : UInt16) : (uint16At (putUint16 v ++ rest) 0 : Except (Fault ε) UInt16) = .ok v := by
  rw [uint16At, slice_field (length_putUint16 v)]
  exact congrArg Except.ok (uint16_putUint16 v)

@[simp] theorem uint32At_put (v : UInt32) : (uint32At (putUint32 v ++ rest) 0 : Except (Fault ε) UInt32) = .ok v := by
  rw [uint32At, slice_field (length_putUint32 v)]
  exact congrArg Except.ok (uint32_putUint32 v)

@[simp] theorem uint64At_put (v : UInt64) : (uint64At (putUint64 v ++ rest) 0 : Except (Fault ε) UInt64) = .ok v := by
  rw [uint64At, slice_field (length_putUint64 v)]
  exact congrArg Except.ok (uint64_putUint64 v)

@[simp] theorem uint32At_last (v : UInt32) : (uint32At (putUint32 v) 0 : Except (Fault ε) UInt32) = .ok v := by
  rw [← append_nil (putUint32 v)]
  exact uint32At_put v

@[simp] theorem byteAt_head (v : UInt8) : (byteAt (v :: rest) 0 : Except (Fault ε) UInt8) = .ok v := rfl

/-- The two reads that compare a checksum. -/
theorem slice_withCRC {n : Nat} (h : bytes.length = n) :
    (slice (withCRC bytes) 0 n : Except (Fault ε) Bytes) = .ok bytes ∧
      (uint32At (withCRC bytes) n : Except (Fault ε) UInt32) = .ok (crc32c bytes) := by
  refine ⟨slice_field h, ?_⟩
  rw [withCRC, uint32At_append (Nat.le_of_eq h), h, Nat.sub_self, uint32At_last]

/-! ## §4 — Decoders that stay in range -/

/-- The decoder does not read outside its input. -/
def InRange (x : Except (Fault ε) α) : Prop := x ≠ .error .outOfRange

theorem InRange.ok (a : α) : InRange (.ok a : Except (Fault ε) α) := by
  simp [InRange]

theorem InRange.rejectIf {bad : Prop} [Decidable bad] {err : ε} : InRange (rejectIf bad err) := by
  unfold InRange Lib.rejectIf
  split <;> simp

/-- Two steps stay in range when the first does and the second does after it. -/
theorem InRange.bind {x : Except (Fault ε) α} {f : α → Except (Fault ε) β} (hx : InRange x)
    (hf : ∀ a, x = .ok a → InRange (f a)) : InRange (x >>= f) := by
  cases x with
  | error err =>
    rintro heq
    exact hx (congrArg Except.error (Except.error.inj heq))
  | ok a => exact hf a rfl

theorem InRange.slice (hle : start ≤ stop) (h : stop ≤ src.length) :
    InRange (slice src start stop : Except (Fault ε) Bytes) := by
  rw [Lib.slice, if_pos ⟨hle, h⟩]
  exact .ok _

theorem InRange.byteAt (h : off < src.length) : InRange (byteAt src off : Except (Fault ε) UInt8) := by
  rw [Lib.byteAt, List.getElem?_eq_getElem h]
  exact .ok _

theorem InRange.map {x : Except (Fault ε) α} {f : α → β} (hx : InRange x) : InRange (f <$> x) :=
  hx.bind fun a _ => .ok (f a)

theorem InRange.uint16At (h : off + 2 ≤ src.length) : InRange (uint16At src off : Except (Fault ε) UInt16) :=
  (InRange.slice (Nat.le_add_right _ _) h).map

theorem InRange.uint32At (h : off + 4 ≤ src.length) : InRange (uint32At src off : Except (Fault ε) UInt32) :=
  (InRange.slice (Nat.le_add_right _ _) h).map

theorem InRange.uint64At (h : off + 8 ≤ src.length) : InRange (uint64At src off : Except (Fault ε) UInt64) :=
  (InRange.slice (Nat.le_add_right _ _) h).map

/-! ## §5 — Tables -/

/-- Read a number of entries of one size that follow each other. -/
def readTable (read : Bytes → Nat → Except (Fault ε) α) (src : Bytes) (size : Nat) :
    Nat → Nat → Except (Fault ε) (List α)
  | 0, _ => .ok []
  | count + 1, off => do
      let entry ← read src off
      let rest ← readTable read src size count (off + size)
      return entry :: rest

theorem length_flatMap_put {put : α → Bytes} {size : Nat} (hput : ∀ a, (put a).length = size) (as : List α) :
    (as.flatMap put).length = as.length * size := by
  induction as with
  | nil => simp
  | cons a rest ih => rw [flatMap_cons, length_append, hput, ih, length_cons, Nat.succ_mul, Nat.add_comm]

/-- **A table whose entries are read back is read back.** -/
theorem readTable_put {read : Bytes → Nat → Except (Fault ε) α} {put : α → Bytes} {size : Nat} {as : List α}
    (hput : ∀ a, (put a).length = size)
    (hread : ∀ a ∈ as, ∀ pre post, read (pre ++ (put a ++ post)) pre.length = .ok a) (pre : Bytes) :
    readTable read (pre ++ as.flatMap put) size as.length pre.length = .ok as := by
  induction as generalizing pre with
  | nil => rfl
  | cons a rest ih =>
    have hrest := ih (fun b hb => hread b (mem_cons_of_mem _ hb)) (pre ++ put a)
    rw [length_append, hput, append_assoc] at hrest
    rw [length_cons, flatMap_cons, readTable, hread a mem_cons_self pre, ok_bind, hrest]
    rfl

end Ridstore.Lib
