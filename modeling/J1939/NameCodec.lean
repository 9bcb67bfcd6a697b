import J1939.Codec
import J1939.Lib.Buffer
import Mathlib.Tactic.Ring

/-!
# The NAME on the wire

`encodeData` and `decodeData` pack the fields of a NAME byte by byte, `getValue` packs them
into one word. The bytes spell the word, so the names that nodes compare are the
ones that they send.
-/

namespace J1939

open Bits

namespace EcuName

/-- `EcuName::operator<`. -/
instance : LT EcuName := ⟨fun n other => n.getValue < other.getValue⟩

instance (n other : EcuName) : Decidable (n < other) :=
  inferInstanceAs (Decidable (n.getValue < other.getValue))

theorem lt_iff (n other : EcuName) : n < other ↔ n.getValue.toNat < other.getValue.toNat :=
  UInt64.lt_iff_toNat_lt

/-- The fields of a NAME, each reduced to its width, in their places. -/
def packed (n : EcuName) : ℕ :=
  n.arbitraryAddressCapable.toNat * 2 ^ 63 + n.industryGroup.toNat % 2 ^ 3 * 2 ^ 60 +
    n.vehicleSystemInstance.toNat % 2 ^ 4 * 2 ^ 56 + n.vehicleSystem.toNat % 2 ^ 7 * 2 ^ 49 +
    n.function.toNat * 2 ^ 40 + n.functionInstance.toNat % 2 ^ 5 * 2 ^ 35 +
    n.ecuInstance.toNat % 2 ^ 3 * 2 ^ 32 + n.manufacturerCode.toNat % 2 ^ 11 * 2 ^ 21 +
    n.idNumber.toNat % 2 ^ 21

/-- No field covers bit 48. -/
theorem packed_reserved (n : EcuName) : n.packed / 2 ^ 48 % 2 = 0 := by
  have hfunction := n.function.toNat_lt
  unfold packed
  omega

/-- A masked byte in its place. -/
theorem toNat_placed (x m : UInt8) (k : UInt64) {w j : ℕ} (hm : m.toNat = 2 ^ w - 1)
    (hk : k.toNat = j) (hj : j < 64) (hw : w + j ≤ 64) :
    ((x &&& m).toUInt64 <<< k).toNat = x.toNat % 2 ^ w * 2 ^ j := by
  have hlow : (x &&& m).toUInt64.toNat = x.toNat % 2 ^ w := by
    rw [UInt8.toNat_toUInt64, toNat_lowByte x m hm]
  have hlt : x.toNat % 2 ^ w * 2 ^ j < 2 ^ 64 :=
    calc x.toNat % 2 ^ w * 2 ^ j < 2 ^ w * 2 ^ j :=
          Nat.mul_lt_mul_of_pos_right (Nat.mod_lt _ (Nat.two_pow_pos w)) (Nat.two_pow_pos j)
      _ = 2 ^ (w + j) := (Nat.pow_add 2 w j).symm
      _ ≤ 2 ^ 64 := Nat.pow_le_pow_right Nat.two_pos hw
  rw [toNat_shiftLeft64 _ _ (by omega) (by rw [hlow, hk]; exact hlt), hlow, hk]

/-- `getValue` puts every field in its place. -/
theorem toNat_getValue (n : EcuName) : n.getValue.toNat = n.packed := by
  have h63 : ((if n.arbitraryAddressCapable then (1 : UInt64) else 0) <<< 63).toNat =
      n.arbitraryAddressCapable.toNat * 2 ^ 63 := by
    cases n.arbitraryAddressCapable <;> rfl
  have h60 := toNat_placed n.industryGroup industryGroupMask 60 (w := 3) (j := 60) rfl rfl
    (by decide) (by decide)
  have h56 := toNat_placed n.vehicleSystemInstance vehicleSystemInterfaceMask 56 (w := 4)
    (j := 56) rfl rfl (by decide)
    (by decide)
  have h49 := toNat_placed n.vehicleSystem vehicleSystemMask 49 (w := 7) (j := 49) rfl rfl
    (by decide) (by decide)
  have h40 := toNat_placed n.function functionMask 40 (w := 8) (j := 40) rfl rfl (by decide)
    (by decide)
  have h35 := toNat_placed n.functionInstance functionInstanceMask 35 (w := 5) (j := 35) rfl rfl
    (by decide) (by decide)
  have h32 := toNat_placed n.ecuInstance ecuInstanceMask 32 (w := 3) (j := 32) rfl rfl (by decide)
    (by decide)
  have hcode : (n.manufacturerCode &&& manufacturerCodeMask).toUInt64.toNat =
      n.manufacturerCode.toNat % 2 ^ 11 := by
    rw [UInt16.toNat_toUInt64, UInt16.toNat_and]
    exact Nat.and_two_pow_sub_one_eq_mod _ 11
  have h21 : ((n.manufacturerCode &&& manufacturerCodeMask).toUInt64 <<< 21).toNat =
      n.manufacturerCode.toNat % 2 ^ 11 * 2 ^ 21 := by
    rw [toNat_shiftLeft64 _ _ (by decide) (by rw [hcode]; change _ * 2 ^ 21 < _; omega), hcode]
    rfl
  have hid : (n.idNumber &&& identityNumberMask).toUInt64.toNat = n.idNumber.toNat % 2 ^ 21 := by
    rw [UInt32.toNat_toUInt64, toNat_low _ _ (w := 21) rfl]
  have h0 : ((n.idNumber &&& identityNumberMask).toUInt64 <<< 0).toNat =
      n.idNumber.toNat % 2 ^ 21 := by
    rw [toNat_shiftLeft64 _ _ (by decide) (by rw [hid]; change _ * 2 ^ 0 < _; omega), hid]
    exact Nat.mul_one _
  have hfunction : n.function.toNat % 2 ^ 8 = n.function.toNat :=
    Nat.mod_eq_of_lt n.function.toNat_lt
  -- every field lies below the ones before it
  have s60 := toNat_or_low64 (w := 63) h63 h60 (by omega) (by omega)
  have s56 := toNat_or_low64 (w := 60) s60 h56 (by omega) (by omega)
  have s49 := toNat_or_low64 (w := 56) s56 h49 (by omega) (by omega)
  have s40 := toNat_or_low64 (w := 49) s49 h40 (by omega) (by omega)
  have s35 := toNat_or_low64 (w := 40) s40 h35 (by omega) (by omega)
  have s32 := toNat_or_low64 (w := 35) s35 h32 (by omega) (by omega)
  have s21 := toNat_or_low64 (w := 32) s32 h21 (by omega) (by omega)
  have s0 := toNat_or_low64 (w := 21) s21 h0 (by omega) (by omega)
  rw [packed, ← hfunction]
  exact s0

end EcuName

namespace AddressClaimFrame

/-- The bytes of a NAME spell its fields. -/
theorem littleEndian_nameBytes (n : EcuName) : littleEndian (nameBytes n) = n.packed := by
  have h0 : (n.idNumber &&& 0xFF).toUInt8.toNat = n.idNumber.toNat % 2 ^ 8 := by
    rw [UInt32.toNat_toUInt8, toNat_low _ _ (w := 8) rfl, Nat.mod_mod]
  have h1 : ((n.idNumber >>> 8) &&& 0xFF).toUInt8.toNat = n.idNumber.toNat / 2 ^ 8 % 2 ^ 8 := by
    rw [UInt32.toNat_toUInt8, toNat_field _ 8 _ (by decide) (w := 8) rfl, Nat.mod_mod]
    rfl
  have h2 : (((n.idNumber >>> 16) &&& 0x1F).toUInt8 |||
      ((n.manufacturerCode <<< 5) &&& 0xFF).toUInt8).toNat =
        n.idNumber.toNat / 2 ^ 16 % 2 ^ 5 + n.manufacturerCode.toNat % 2 ^ 3 * 2 ^ 5 := by
    have hlow : ((n.idNumber >>> 16) &&& 0x1F).toUInt8.toNat =
        n.idNumber.toNat / 2 ^ 16 % 2 ^ 5 := by
      rw [UInt32.toNat_toUInt8, toNat_field _ 16 _ (by decide) (w := 5) rfl]
      change n.idNumber.toNat / 2 ^ 16 % 2 ^ 5 % 2 ^ 8 = _
      omega
    have hhigh : ((n.manufacturerCode <<< 5) &&& 0xFF).toUInt8.toNat =
        n.manufacturerCode.toNat % 2 ^ 3 * 2 ^ 5 := by
      rw [UInt16.toNat_toUInt8, UInt16.toNat_and, UInt16.toNat_shiftLeft]
      change (n.manufacturerCode.toNat <<< 5 % 2 ^ 16 &&& (2 ^ 8 - 1)) % 2 ^ 8 = _
      rw [Nat.and_two_pow_sub_one_eq_mod, Nat.shiftLeft_eq]
      omega
    exact toNat_join8 hlow hhigh (by omega)
  have h3 : ((n.manufacturerCode >>> 3) &&& 0xFF).toUInt8.toNat =
      n.manufacturerCode.toNat / 2 ^ 3 % 2 ^ 8 := by
    rw [UInt16.toNat_toUInt8, UInt16.toNat_and, UInt16.toNat_shiftRight]
    change (n.manufacturerCode.toNat >>> 3 &&& (2 ^ 8 - 1)) % 2 ^ 8 = _
    rw [Nat.and_two_pow_sub_one_eq_mod, Nat.mod_mod, Nat.shiftRight_eq_div_pow]
  have h4 : ((n.ecuInstance &&& ecuInstanceMask) ||| (n.functionInstance <<< 3)).toNat =
      n.ecuInstance.toNat % 2 ^ 3 + n.functionInstance.toNat % 2 ^ 5 * 2 ^ 3 := by
    have hhigh : (n.functionInstance <<< 3).toNat = n.functionInstance.toNat % 2 ^ 5 * 2 ^ 3 := by
      rw [UInt8.toNat_shiftLeft]
      change n.functionInstance.toNat <<< 3 % 2 ^ 8 = _
      rw [Nat.shiftLeft_eq]
      omega
    exact toNat_join8 (toNat_lowByte _ _ (w := 3) rfl) hhigh (by omega)
  have h6 : (n.vehicleSystem <<< 1).toNat = n.vehicleSystem.toNat % 2 ^ 7 * 2 := by
    rw [UInt8.toNat_shiftLeft]
    change n.vehicleSystem.toNat <<< 1 % 2 ^ 8 = _
    rw [Nat.shiftLeft_eq]
    omega
  have h7 : ((n.vehicleSystemInstance &&& vehicleSystemInterfaceMask) |||
      ((n.industryGroup &&& industryGroupMask) <<< 4) |||
      ((if n.arbitraryAddressCapable then (1 : UInt8) else 0) <<< 7)).toNat =
        n.vehicleSystemInstance.toNat % 2 ^ 4 + n.industryGroup.toNat % 2 ^ 3 * 2 ^ 4 +
          n.arbitraryAddressCapable.toNat * 2 ^ 7 := by
    have hgroup : ((n.industryGroup &&& industryGroupMask) <<< 4).toNat =
        n.industryGroup.toNat % 2 ^ 3 * 2 ^ 4 := by
      rw [UInt8.toNat_shiftLeft, toNat_lowByte _ _ (w := 3) rfl]
      change (n.industryGroup.toNat % 2 ^ 3) <<< 4 % 2 ^ 8 = _
      rw [Nat.shiftLeft_eq]
      omega
    have hcapable : ((if n.arbitraryAddressCapable then (1 : UInt8) else 0) <<< 7).toNat =
        n.arbitraryAddressCapable.toNat * 2 ^ 7 := by
      cases n.arbitraryAddressCapable <;> rfl
    exact toNat_join8 (toNat_join8 (toNat_lowByte _ _ (w := 4) rfl) hgroup (by omega))
      hcapable (by omega)
  simp only [nameBytes, littleEndian_cons, littleEndian_nil, h0, h1, h2, h3, h4, h6, h7]
  have hid : n.idNumber.toNat % 2 ^ 21 = n.idNumber.toNat % 2 ^ 8 +
      n.idNumber.toNat / 2 ^ 8 % 2 ^ 8 * 2 ^ 8 + n.idNumber.toNat / 2 ^ 16 % 2 ^ 5 * 2 ^ 16 := by
    omega
  have hcode : n.manufacturerCode.toNat % 2 ^ 11 = n.manufacturerCode.toNat % 2 ^ 3 +
      n.manufacturerCode.toNat / 2 ^ 3 % 2 ^ 8 * 2 ^ 3 := by
    omega
  rw [EcuName.packed, hid, hcode]
  ring

/-- The NAME that a payload spells, field by field. -/
def wireName (mem : Memory) : EcuName where
  idNumber := ((mem 0).toUInt32 ||| ((mem 1).toUInt32 <<< 8)) |||
    (((mem 2).toUInt32 &&& 0x1F) <<< 16)
  manufacturerCode := ((mem 2 &&& 0xE0) >>> 5).toUInt16 ||| ((mem 3).toUInt16 <<< 3)
  ecuInstance := mem 4 &&& 0x07
  functionInstance := (mem 4 &&& 0xF8) >>> 3
  function := mem 5
  vehicleSystem := mem 6 >>> 1
  vehicleSystemInstance := mem 7 &&& 0x0F
  industryGroup := (mem 7 >>> 4) &&& 0x07
  arbitraryAddressCapable := mem 7 >>> 7 ≠ 0

theorem run_decodeData (f : AddressClaimFrame) (mem : Memory) :
    (decodeData addressFrameLength).run f mem = (.ok (), { f with ecuName := wireName mem }) := by
  simp only [decodeData, Method.run_throwIf_bind, Method.run_byte_bind, Method.run_modify]
  rfl

/-- Masking the high bits of a byte before shifting them down changes nothing. -/
theorem toNat_highField (b m k : UInt8) {j : ℕ} (hk : k.toNat = j) (hj : j < 8)
    (hm : m.toNat >>> j = 2 ^ (8 - j) - 1) : ((b &&& m) >>> k).toNat = b.toNat / 2 ^ j := by
  have hb : b.toNat / 2 ^ j < 2 ^ (8 - j) := by
    rw [Nat.div_lt_iff_lt_mul (Nat.two_pow_pos j), ← Nat.pow_add, Nat.sub_add_cancel (by omega)]
    exact b.toNat_lt
  rw [UInt8.toNat_shiftRight, UInt8.toNat_and, hk, Nat.mod_eq_of_lt hj, Nat.shiftRight_and_distrib,
    hm, Nat.and_two_pow_sub_one_eq_mod, Nat.shiftRight_eq_div_pow, Nat.mod_eq_of_lt hb]

/-- The fields of eight bytes, each in its place, and the bit that belongs to none. -/
theorem wireFields_sum (b0 b1 b2 b3 b4 b5 b6 b7 : ℕ) (h0 : b0 < 2 ^ 8) (h1 : b1 < 2 ^ 8)
    (h2 : b2 < 2 ^ 8) (h3 : b3 < 2 ^ 8) (h4 : b4 < 2 ^ 8) (h6 : b6 < 2 ^ 8) :
    b7 / 2 ^ 7 * 2 ^ 63 + b7 / 2 ^ 4 % 2 ^ 3 % 2 ^ 3 * 2 ^ 60 + b7 % 2 ^ 4 % 2 ^ 4 * 2 ^ 56 +
        b6 / 2 ^ 1 % 2 ^ 7 * 2 ^ 49 + b5 * 2 ^ 40 + b4 / 2 ^ 3 % 2 ^ 5 * 2 ^ 35 +
        b4 % 2 ^ 3 % 2 ^ 3 * 2 ^ 32 + (b2 / 2 ^ 5 + b3 * 2 ^ 3) % 2 ^ 11 * 2 ^ 21 +
        (b0 + b1 * 2 ^ 8 + b2 % 2 ^ 5 * 2 ^ 16) % 2 ^ 21 + b6 % 2 * 2 ^ 48 =
      b0 + 256 * (b1 + 256 * (b2 + 256 * (b3 + 256 * (b4 + 256 * (b5 + 256 *
        (b6 + 256 * b7)))))) := by
  omega

/-- The fields that are read lie where `getValue` puts them; bit 48 is read by none. -/
theorem packed_wireName (mem : Memory) :
    (wireName mem).packed + (mem 6).toNat % 2 * 2 ^ 48 = littleEndian (mem.slice 0 8) := by
  have hbyte : ∀ i, (mem i).toNat < 2 ^ 8 := fun i => (mem i).toNat_lt
  have hid : (wireName mem).idNumber.toNat =
      (mem 0).toNat + (mem 1).toNat * 2 ^ 8 + (mem 2).toNat % 2 ^ 5 * 2 ^ 16 := by
    have h0 := hbyte 0
    have h1 := hbyte 1
    have hhigh : ((mem 2).toUInt32 &&& 0x1F).toNat = (mem 2).toNat % 2 ^ 5 := by
      rw [toNat_low _ _ (w := 5) rfl, UInt8.toNat_toUInt32]
    have hlow := toNat_or_shifted (k := 8) (j := 8) (mem 0).toNat_toUInt32
      (mem 1).toNat_toUInt32 rfl (by decide) (by omega) (by omega)
    exact toNat_or_shifted (k := 16) (j := 16) hlow hhigh rfl (by decide) (by omega) (by omega)
  have hcode : (wireName mem).manufacturerCode.toNat =
      (mem 2).toNat / 2 ^ 5 + (mem 3).toNat * 2 ^ 3 := by
    have h2 := hbyte 2
    have h3 := hbyte 3
    have hlow : ((mem 2 &&& 0xE0) >>> 5).toUInt16.toNat = (mem 2).toNat / 2 ^ 5 := by
      rw [UInt8.toNat_toUInt16, toNat_highField (mem 2) 0xE0 5 (j := 5) rfl (by decide) rfl]
    rw [wireName, UInt16.toNat_or, UInt16.toNat_shiftLeft, hlow, UInt8.toNat_toUInt16]
    change (mem 2).toNat / 2 ^ 5 ||| (mem 3).toNat <<< 3 % 2 ^ 16 = _
    rw [Nat.shiftLeft_eq, Nat.mod_eq_of_lt (by omega), Nat.or_comm, ← Nat.shiftLeft_eq,
      ← Nat.shiftLeft_add_eq_or_of_lt (by omega), Nat.add_comm]
  have hecu : (wireName mem).ecuInstance.toNat = (mem 4).toNat % 2 ^ 3 :=
    toNat_lowByte _ _ (w := 3) rfl
  have hinstance : (wireName mem).functionInstance.toNat = (mem 4).toNat / 2 ^ 3 :=
    toNat_highField (mem 4) 0xF8 3 rfl (by decide) rfl
  have hsystem : (wireName mem).vehicleSystem.toNat = (mem 6).toNat / 2 ^ 1 := by
    rw [wireName, UInt8.toNat_shiftRight, ← Nat.shiftRight_eq_div_pow]
    rfl
  have hinterface : (wireName mem).vehicleSystemInstance.toNat = (mem 7).toNat % 2 ^ 4 :=
    toNat_lowByte _ _ (w := 4) rfl
  have hgroup : (wireName mem).industryGroup.toNat = (mem 7).toNat / 2 ^ 4 % 2 ^ 3 := by
    rw [wireName, toNat_lowByte _ _ (w := 3) rfl, UInt8.toNat_shiftRight,
      ← Nat.shiftRight_eq_div_pow]
    rfl
  have hcapable : (wireName mem).arbitraryAddressCapable.toNat = (mem 7).toNat / 2 ^ 7 := by
    have h7 := hbyte 7
    have hshift : (mem 7 >>> 7).toNat = (mem 7).toNat / 2 ^ 7 := by
      rw [UInt8.toNat_shiftRight, ← Nat.shiftRight_eq_div_pow]
      rfl
    have hzero : mem 7 >>> 7 = 0 ↔ (mem 7).toNat / 2 ^ 7 = 0 := by
      rw [← hshift]
      exact UInt8.toNat_inj.symm
    change (decide (mem 7 >>> 7 ≠ 0)).toNat = _
    by_cases h : mem 7 >>> 7 = 0
    · rw [hzero.mp h]
      simp [h]
    · have hone : (mem 7).toNat / 2 ^ 7 = 1 := by
        have hne := mt hzero.mpr h
        omega
      rw [hone]
      simp [h]
  simp only [Memory.slice_succ, Memory.slice_zero, littleEndian_cons, littleEndian_nil]
  rw [EcuName.packed, hid, hcode, hecu, hinstance, hsystem, hinterface, hgroup, hcapable]
  exact wireFields_sum _ _ _ _ _ _ _ _ (hbyte 0) (hbyte 1) (hbyte 2) (hbyte 3) (hbyte 4) (hbyte 6)

/-- The bit of a NAME that is reserved. -/
def reservedBit : UInt64 := (1 : UInt64) <<< 48

theorem toNat_clearReserved {v : ℕ} (hv : v < 2 ^ 64) :
    (UInt64.ofNat v &&& ~~~reservedBit).toNat + v / 2 ^ 48 % 2 * 2 ^ 48 = v := by
  have hvalue : (UInt64.ofNat v).toNat = v := UInt64.toNat_ofNat_of_lt hv
  have hclear := toNat_clearBit64 (UInt64.ofNat v) 48 (j := 48) rfl (by decide)
  rw [hvalue] at hclear
  exact hclear

/-- What `getValue` makes of a decoded payload. -/
theorem getValue_wireName (mem : Memory) : (wireName mem).getValue =
    UInt64.ofNat (littleEndian (mem.slice 0 addressFrameLength)) &&& ~~~reservedBit := by
  have hlt := littleEndian_lt (mem.slice 0 addressFrameLength)
  rw [Memory.length_slice] at hlt
  have hclear := toNat_clearReserved hlt
  have hbit : littleEndian (mem.slice 0 addressFrameLength) / 2 ^ 48 % 2 = (mem 6).toNat % 2 := by
    have h : ∀ i, (mem i).toNat < 2 ^ 8 := fun i => (mem i).toNat_lt
    have h0 := h 0
    have h1 := h 1
    have h2 := h 2
    have h3 := h 3
    have h4 := h 4
    have h5 := h 5
    simp only [addressFrameLength, Memory.slice_succ, Memory.slice_zero, littleEndian_cons,
      littleEndian_nil, Nat.zero_add, Nat.reduceAdd]
    omega
  rw [hbit] at hclear
  apply UInt64.toNat_inj.mp
  rw [EcuName.toNat_getValue]
  exact Nat.add_right_cancel ((packed_wireName mem).trans hclear.symm)

/-- `encodeData` writes the first eight bytes of the buffer. -/
theorem encodeData_eq (f : AddressClaimFrame) {buffer : List UInt8}
    (hbuffer : addressFrameLength ≤ buffer.length) :
    encodeData f buffer = .ok (nameBytes f.ecuName ++ buffer.drop addressFrameLength) := by
  have hlength : (nameBytes f.ecuName).length = addressFrameLength := rfl
  rw [encodeData, Buffer.writeBytes_eq _ _ _ (by rw [hlength, Nat.zero_add]; exact hbuffer),
    List.take_zero, List.nil_append, Nat.zero_add, hlength]

theorem take_nameBytes (n : EcuName) (rest : List UInt8) :
    (nameBytes n ++ rest).take addressFrameLength = nameBytes n := rfl

/-- The reserved bit of a NAME that was sent is clear. -/
theorem littleEndian_of_encodeData {f : AddressClaimFrame} {buffer out : List UInt8}
    (hbuffer : addressFrameLength ≤ buffer.length) (h : encodeData f buffer = .ok out) :
    (UInt64.ofNat (littleEndian (out.take addressFrameLength)) &&& ~~~reservedBit).toNat =
      littleEndian (out.take addressFrameLength) := by
  rw [encodeData_eq f hbuffer] at h
  cases h
  have hlt : f.ecuName.packed < 2 ^ 64 := by
    rw [← EcuName.toNat_getValue]
    exact UInt64.toNat_lt _
  have hclear := toNat_clearReserved hlt
  rw [f.ecuName.packed_reserved, Nat.zero_mul, Nat.add_zero] at hclear
  rw [take_nameBytes, littleEndian_nameBytes, hclear]

end AddressClaimFrame

/-- The NAME on the wire is the NAME that decides the arbitration. The bytes that `encodeData`
writes spell `getValue`; a payload is decoded into the NAME whose `getValue` it spells, with
the reserved bit cleared; and decoded NAMEs are ordered as the transmitted ones. -/
theorem name_on_wire (f g : AddressClaimFrame) {buffer payload payload' : List UInt8}
    (hbuffer : addressFrameLength ≤ buffer.length) (hpayload : payload.length = addressFrameLength)
    (hpayload' : payload'.length = addressFrameLength) (beyond beyond' : Memory) :
    (∃ out, encodeData f buffer = .ok out ∧
      littleEndian (out.take addressFrameLength) = f.ecuName.getValue.toNat) ∧
    ∃ n n' : EcuName,
      (decodeData payload.length).run f (Memory.ofList payload beyond) =
        (.ok (), { f with ecuName := n }) ∧
      (decodeData payload'.length).run g (Memory.ofList payload' beyond') =
        (.ok (), { g with ecuName := n' }) ∧
      n.getValue = UInt64.ofNat (littleEndian payload) &&& ~~~AddressClaimFrame.reservedBit ∧
      (n < n' ↔ UInt64.ofNat (littleEndian payload) &&& ~~~AddressClaimFrame.reservedBit <
        UInt64.ofNat (littleEndian payload') &&& ~~~AddressClaimFrame.reservedBit) ∧
      ∀ (sent sent' : AddressClaimFrame) (out out' : List UInt8),
        encodeData sent buffer = .ok out → encodeData sent' buffer = .ok out' →
          payload = out.take addressFrameLength → payload' = out'.take addressFrameLength →
            (n < n' ↔ littleEndian payload < littleEndian payload') := by
  have hn : (AddressClaimFrame.wireName (Memory.ofList payload beyond)).getValue =
      UInt64.ofNat (littleEndian payload) &&& ~~~AddressClaimFrame.reservedBit := by
    rw [AddressClaimFrame.getValue_wireName, ← hpayload, Memory.slice_ofList]
  have hn' : (AddressClaimFrame.wireName (Memory.ofList payload' beyond')).getValue =
      UInt64.ofNat (littleEndian payload') &&& ~~~AddressClaimFrame.reservedBit := by
    rw [AddressClaimFrame.getValue_wireName, ← hpayload', Memory.slice_ofList]
  refine ⟨⟨_, AddressClaimFrame.encodeData_eq f hbuffer, ?_⟩,
    AddressClaimFrame.wireName (Memory.ofList payload beyond),
    AddressClaimFrame.wireName (Memory.ofList payload' beyond'), ?_, ?_, hn, ?_, ?_⟩
  · rw [AddressClaimFrame.take_nameBytes, AddressClaimFrame.littleEndian_nameBytes,
      EcuName.toNat_getValue]
  · rw [hpayload]
    exact AddressClaimFrame.run_decodeData f _
  · rw [hpayload']
    exact AddressClaimFrame.run_decodeData g _
  · rw [← hn, ← hn']
    exact Iff.rfl
  · rintro sent sent' out out' hsent hsent' rfl rfl
    rw [EcuName.lt_iff, hn, hn', AddressClaimFrame.littleEndian_of_encodeData hbuffer hsent,
      AddressClaimFrame.littleEndian_of_encodeData hbuffer hsent']

/-- The NAME of an engine. -/
def engineName : EcuName where
  idNumber := 25898
  manufacturerCode := 1256
  ecuInstance := 5
  functionInstance := 16
  function := 241
  vehicleSystem := 90
  vehicleSystemInstance := 15
  industryGroup := 2

/-- The bytes of the engine's NAME spell it, and one that differs in the reserved bit is read
as the same NAME. -/
theorem engineName_on_wire :
    (∃ out, encodeData (AddressClaimFrame.ofEcuName engineName) (List.replicate 8 0xFF) = .ok out ∧
      littleEndian (out.take addressFrameLength) = 0x2FB4F1859D00652A) ∧
    ∃ n n' : EcuName,
      (decodeData 8).run AddressClaimFrame.new
        (Memory.ofList [0x2A, 0x65, 0x00, 0x9D, 0x85, 0xF1, 0xB4, 0x2F] fun _ => 0) =
          (.ok (), AddressClaimFrame.ofEcuName n) ∧
      (decodeData 8).run AddressClaimFrame.new
        (Memory.ofList [0x2A, 0x65, 0x00, 0x9D, 0x85, 0xF1, 0xB5, 0x2F] fun _ => 0) =
          (.ok (), AddressClaimFrame.ofEcuName n') ∧
      ¬n < n' := by
  obtain ⟨⟨out, hout, hspelled⟩, n, n', hn, hn', -, hlt, -⟩ :=
    @name_on_wire (AddressClaimFrame.ofEcuName engineName) AddressClaimFrame.new
      (List.replicate 8 0xFF) [0x2A, 0x65, 0x00, 0x9D, 0x85, 0xF1, 0xB4, 0x2F]
      [0x2A, 0x65, 0x00, 0x9D, 0x85, 0xF1, 0xB5, 0x2F] (by decide) rfl rfl (fun _ => 0) fun _ => 0
  refine ⟨⟨out, hout, hspelled.trans (by decide)⟩, n, n', ?_, hn', hlt.not.mpr (by decide)⟩
  exact hn

end J1939
