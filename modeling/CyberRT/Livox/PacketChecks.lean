import CyberRT.Livox.Protocol

namespace CyberRT.Livox
open Posix

/-- Bytes that hold a word are its bytes. -/
theorem ofNat_ofLittleEndian_eq_iff {n w : Nat} (wide : 8 * n = w) {bytes : List UInt8} (length : bytes.length = n)
    (c : BitVec w) : BitVec.ofNat w (ofLittleEndian bytes) = c ↔ bytes = littleEndian n c.toNat := by
  have power : 256 ^ n = 2 ^ w := by rw [← wide, Nat.pow_mul]
  constructor
  · rintro rfl
    have small := ofLittleEndian_lt bytes
    rw [length, power] at small
    rw [BitVec.toNat_ofNat, Nat.mod_eq_of_lt small, ← length, littleEndian_ofLittleEndian]
  · rintro rfl
    rw [ofLittleEndian_littleEndian, power, Nat.mod_eq_of_lt c.isLt, BitVec.ofNat_toNat, BitVec.setWidth_eq]

theorem mcrf4xx_last : mcrf4xx.getLsbD (16 - 1) = true := by decide

theorem crc32_last : crc32.getLsbD (32 - 1) = true := by decide

/-- What the register of the second checksum holds after a packet with its checksum. -/
def residue : BitVec 32 :=
  Crc.shifts crc32 32 0xffffffff

/-- A preamble ends with its own checksum if and only if it clears the register. -/
theorem preamble_checksum_iff (seed : BitVec 16) (front : List UInt8) {sum : List UInt8} (length : sum.length = 2) :
    Crc.run mcrf4xx seed (front ++ sum) = 0 ↔ sum = littleEndian 2 (Crc.run mcrf4xx seed front).toNat := by
  rw [Crc.run_append, ← ofNat_ofLittleEndian_eq_iff (w := 16) (by decide) length, ofNat_ofLittleEndian]
  exact Crc.foldl_feed_eq_zero_iff mcrf4xx_last (by rw [Crc.bits_length, length]) _

theorem packet_checksum_iff (seed : BitVec 32) (front : List UInt8) {sum : List UInt8} (length : sum.length = 4) :
    Crc.run crc32 seed (front ++ sum) = residue ↔
      Crc.run crc32 seed front ^^^ 0xffffffff = BitVec.ofNat 32 (ofLittleEndian sum) := by
  have wide : (Crc.bits sum).length = 32 := by rw [Crc.bits_length, length]
  rw [Crc.run_append, residue, Crc.run, Crc.foldl_feed (Nat.le_of_eq wide), wide,
    (Crc.shifts_injective crc32_last _).eq_iff, ofNat_ofLittleEndian]
  constructor
  · intro same
    rw [← same, ← BitVec.xor_assoc, BitVec.xor_self, BitVec.zero_xor]
  · intro same
    rw [← same, ← BitVec.xor_assoc, BitVec.xor_self, BitVec.zero_xor]

namespace LivoxProtocol
variable (prot : LivoxProtocol) (address : Nat) {buf : List UInt8}

theorem load_take {n : Nat} (inside : n ≤ buf.length) : load buf 0 n = some (buf.take n) := by
  have bounds : (0 : Int) ≤ 0 ∧ 0 + (n : Int) ≤ buf.length := by omega
  rw [load, if_pos bounds]
  rfl

theorem load_slice {i : Int} {n : Nat} (first : Nat) (here : i = first) (inside : first + n ≤ buf.length) :
    load buf i n = some ((buf.drop first).take n) := by
  have bounds : 0 ≤ i ∧ i + (n : Int) ≤ buf.length := by omega
  rw [load, if_pos bounds, here, Int.toNat_natCast]

/-- The two checks read no more of the buffer than the packet. -/
theorem checkPreamble_eq (long : getPreambleLen ≤ buf.length) :
    prot.checkPreamble address buf =
      some (if buf.take 1 = [kSdkProtocolSof] ∧ Crc.run mcrf4xx prot.seed16 (buf.take getPreambleLen) = 0
        then 0 else -1) := by
  have sof : load buf 0 1 = some (buf.take 1) := load_take (Nat.le_trans (by decide) long)
  simp only [checkPreamble, sof, load_take long, FastCRC16.mcrf4xxCalc_eq, Option.bind_eq_bind, Option.bind_some]
  by_cases starts : buf.take 1 = [kSdkProtocolSof]
  · simp only [starts, ne_eq, not_true, if_false, true_and]
    split
    · rfl
    · rfl
  · simp [starts]

theorem getPacketLen_eq (long : 4 ≤ buf.length) :
    getPacketLen buf = some (ofLittleEndian ((buf.drop 2).take 2)) := by
  have read : load buf 2 2 = some ((buf.drop 2).take 2) := load_slice 2 rfl long
  rw [getPacketLen, read, Option.map_some]

theorem checkPacket_eq {length : Nat} (known : getPacketLen buf = some length) (long : 4 ≤ length)
    (small : length < 2 ^ 16) (inside : length ≤ buf.length) :
    prot.checkPacket address buf =
      some (if Crc.run crc32 (prot.seed32 ^^^ 0xffffffff) (buf.take length) = residue then 0 else -1) := by
  have rest : (length.toUInt16 - kSdkPacketCrcSize.toUInt16).toNat = length - 4 := by
    have four : kSdkPacketCrcSize.toUInt16 ≤ length.toUInt16 := by
      rw [UInt16.le_iff_toNat_le, Nat.toUInt16_eq, UInt16.toNat_ofNat_of_lt' small]
      exact long
    rw [UInt16.toNat_sub_of_le _ _ four, Nat.toUInt16_eq, UInt16.toNat_ofNat_of_lt' small]
    rfl
  have crc : load buf ((length : Int) - 4) 4 = some ((buf.drop (length - 4)).take 4) :=
    load_slice (length - 4) (by omega) (by omega)
  have body : load buf 0 (length - 4) = some (buf.take (length - 4)) := load_take (by omega)
  have four : ((buf.drop (length - 4)).take 4).length = 4 := by
    rw [List.length_take, List.length_drop]
    omega
  have parts : buf.take length = buf.take (length - 4) ++ (buf.drop (length - 4)).take 4 := by
    rw [← List.take_add]
    congr 1
    omega
  simp only [checkPacket, known, rest, crc, body, FastCRC32.crc32Calc_eq, Option.bind_eq_bind, Option.bind_some, parts,
    packet_checksum_iff _ _ four]
  split
  · rfl
  · rfl

variable {p : CommPacket}

theorem length_preamble : (prot.preamble p).length = getPreambleLen := rfl

theorem length_body (readable : p.dataLen.toNat ≤ p.data.length) :
    (prot.body p).length = 11 + p.dataLen.toNat := by
  have data : (p.data.take p.dataLen.toNat).length = p.dataLen.toNat := List.length_take_of_le readable
  rw [body, List.length_append, List.length_append, length_preamble, data]
  rfl

theorem length_encode (readable : p.dataLen.toNat ≤ p.data.length) :
    (prot.encode p).length = p.dataLen.toNat + 15 := by
  rw [encode, List.length_append, prot.length_body readable, littleEndian_length]
  omega

/-- The bytes of a packet pass the checks, whatever follows them in the buffer. -/
theorem encode_passes (small : p.dataLen.toNat + 15 < 2 ^ 16) (readable : p.dataLen.toNat ≤ p.data.length)
    (rest : List UInt8) :
    getPacketLen (prot.encode p ++ rest) = some (p.dataLen.toNat + 15) ∧
      prot.checkPreamble address (prot.encode p ++ rest) = some 0 ∧
      prot.checkPacket address (prot.encode p ++ rest) = some 0 := by
  have whole := prot.length_encode readable
  have long : p.dataLen.toNat + 15 ≤ (prot.encode p ++ rest).length := by
    rw [List.length_append, whole]
    omega
  have front : prot.encode p ++ rest = prot.preamble p ++ ([p.cmdSet, p.cmdCode.toUInt8] ++ (p.data.take p.dataLen.toNat ++
      (littleEndian 4 (Crc.run crc32 (prot.seed32 ^^^ 0xffffffff) (prot.body p) ^^^ 0xffffffff).toNat ++ rest))) := by
    simp only [encode, body, List.append_assoc]
  have known : getPacketLen (prot.encode p ++ rest) = some (p.dataLen.toNat + 15) := by
    rw [getPacketLen_eq (by omega), front, preamble, CommPacket.fields]
    exact congrArg some ((ofLittleEndian_littleEndian 2 _).trans (Nat.mod_eq_of_lt small))
  have head : (prot.encode p ++ rest).take getPreambleLen = prot.preamble p := by
    rw [front, ← prot.length_preamble, List.take_left]
  have sof : (prot.encode p ++ rest).take 1 = [kSdkProtocolSof] := by
    rw [front]
    rfl
  have all : (prot.encode p ++ rest).take (p.dataLen.toNat + 15) = prot.encode p := by
    rw [← whole, List.take_left]
  refine ⟨known, ?_, ?_⟩
  · have clears : Crc.run mcrf4xx prot.seed16 (prot.preamble p) = 0 := (preamble_checksum_iff _ _ rfl).mpr rfl
    rw [prot.checkPreamble_eq address (Nat.le_trans (Nat.le_add_left 9 (p.dataLen.toNat + 6)) long), head,
      if_pos ⟨sof, clears⟩]
  · have left : Crc.run crc32 (prot.seed32 ^^^ 0xffffffff) (prot.encode p) = residue :=
      (packet_checksum_iff _ _ rfl).mpr ((ofNat_ofLittleEndian_eq_iff (n := 4) (by decide) rfl _).mpr rfl).symm
    rw [prot.checkPacket_eq address known (Nat.le_add_left 4 (p.dataLen.toNat + 11)) small long, all, if_pos left]

/-- The fields of a buffer that begins with the bytes of a packet. -/
theorem parsePacket_encode (rest : List UInt8) {inLen : Nat}
    (long : getPacketWrapperLen ≤ inLen) :
    parsePacket (prot.encode p ++ rest) inLen =
      some (0, some (p.received ((prot.encode p ++ rest).drop 11))) := by
  obtain ⟨l₀, l₁, lengthBytes⟩ : ∃ l₀ l₁, littleEndian 2 (p.dataLen.toNat + 15) = [l₀, l₁] := ⟨_, _, rfl⟩
  obtain ⟨s₀, s₁, seqBytes⟩ : ∃ s₀ s₁, littleEndian 2 (p.seqNum &&& 0xFFFF).toNat = [s₀, s₁] := ⟨_, _, rfl⟩
  obtain ⟨k₀, k₁, crcBytes⟩ : ∃ k₀ k₁, littleEndian 2 (Crc.run mcrf4xx prot.seed16 p.fields).toNat = [k₀, k₁] :=
    ⟨_, _, rfl⟩
  have form : ∃ after, prot.encode p ++ rest = kSdkProtocolSof :: 1 :: l₀ :: l₁ :: p.packetType :: s₀ :: s₁ :: k₀ ::
      k₁ :: p.cmdSet :: p.cmdCode.toUInt8 :: after := by
    refine ⟨p.data.take p.dataLen.toNat ++ (littleEndian 4 (Crc.run crc32 (prot.seed32 ^^^ 0xffffffff)
      (prot.body p) ^^^ 0xffffffff).toNat ++ rest), ?_⟩
    have front : prot.preamble p ++ [p.cmdSet, p.cmdCode.toUInt8] =
        [kSdkProtocolSof, 1, l₀, l₁, p.packetType, s₀, s₁, k₀, k₁, p.cmdSet, p.cmdCode.toUInt8] := by
      rw [preamble, crcBytes, CommPacket.fields, lengthBytes, seqBytes]
      rfl
    rw [encode, body, front, List.append_assoc, List.append_assoc]
    rfl
  obtain ⟨after, form⟩ := form
  have dataLen : (ofLittleEndian [l₀, l₁]).toUInt16 - getPacketWrapperLen.toUInt16 = p.dataLen := by
    have sum : (ofLittleEndian [l₀, l₁]).toUInt16 = p.dataLen + getPacketWrapperLen.toUInt16 := by
      refine UInt16.toNat_inj.mp ?_
      rw [← lengthBytes, ofLittleEndian_littleEndian, UInt16.toNat_add, Nat.toUInt16_eq, UInt16.toNat_ofNat']
      exact Nat.mod_mod ..
    rw [sum, UInt16.add_sub_cancel]
  have seqNum : (ofLittleEndian [s₀, s₁]).toUInt32 = p.seqNum &&& 0xFFFF := by
    have low : (p.seqNum &&& 0xFFFF).toNat < 256 ^ 2 := by
      rw [UInt32.toNat_and]
      exact Nat.lt_succ_of_le Nat.and_le_right
    refine UInt32.toNat_inj.mp ?_
    rw [← seqBytes, ofLittleEndian_littleEndian, Nat.mod_eq_of_lt low, Nat.toUInt32_eq, UInt32.toNat_ofNat']
    exact Nat.mod_eq_of_lt (UInt32.toNat_lt _)
  have version : load (prot.encode p ++ rest) 1 1 = some [1] := by
    rw [form]
    exact load_append [kSdkProtocolSof] [1] _ rfl rfl
  have length : load (prot.encode p ++ rest) 2 2 = some [l₀, l₁] := by
    rw [form]
    exact load_append [kSdkProtocolSof, 1] [l₀, l₁] _ rfl rfl
  have packetType : load (prot.encode p ++ rest) 4 1 = some [p.packetType] := by
    rw [form]
    exact load_append [kSdkProtocolSof, 1, l₀, l₁] [p.packetType] _ rfl rfl
  have seqField : load (prot.encode p ++ rest) 5 2 = some [s₀, s₁] := by
    rw [form]
    exact load_append [kSdkProtocolSof, 1, l₀, l₁, p.packetType] [s₀, s₁] _ rfl rfl
  have cmdSet : load (prot.encode p ++ rest) 9 1 = some [p.cmdSet] := by
    rw [form]
    exact load_append [kSdkProtocolSof, 1, l₀, l₁, p.packetType, s₀, s₁, k₀, k₁] [p.cmdSet] _ rfl rfl
  have cmdId : load (prot.encode p ++ rest) 10 1 = some [p.cmdCode.toUInt8] := by
    rw [form]
    exact load_append [kSdkProtocolSof, 1, l₀, l₁, p.packetType, s₀, s₁, k₀, k₁, p.cmdSet] [p.cmdCode.toUInt8] _ rfl rfl
  have enough : ¬ inLen < getPacketWrapperLen := Nat.not_lt.mpr long
  simp only [parsePacket, enough, if_false, version, length, packetType, seqField, cmdSet, cmdId,
    Option.bind_eq_bind, Option.bind_some, dataLen, seqNum, List.headD_cons]
  rfl

theorem drop_encode (readable : p.dataLen.toNat ≤ p.data.length) (rest : List UInt8) :
    ((prot.encode p ++ rest).drop 11).take p.dataLen.toNat = p.data.take p.dataLen.toNat := by
  have front : (prot.preamble p ++ [p.cmdSet, p.cmdCode.toUInt8]).length = 11 := rfl
  have data : (p.data.take p.dataLen.toNat).length = p.dataLen.toNat := List.length_take_of_le readable
  conv => lhs; rw [← data]
  rw [encode, body, List.append_assoc, List.append_assoc, ← front, List.drop_left, List.take_left]

/-- What is known of a packet that was packed. -/
theorem pack_ok {outBuf buf : List UInt8} {outBufSize n : Nat}
    (packed : prot.pack address outBuf outBufSize p = some ⟨0, buf, some n⟩) :
    p.protocol = 0 ∧ (p.dataLen + getPacketWrapperLen.toUInt16).toNat = n ∧ n ≤ outBufSize ∧
      p.dataLen.toNat ≤ p.data.length := by
  unfold pack at packed
  split at packed
  · cases packed
  · rename_i plain
    obtain ⟨_, -, packed⟩ := Option.bind_eq_some_iff.mp packed
    obtain ⟨_, -, packed⟩ := Option.bind_eq_some_iff.mp packed
    split at packed
    · cases packed
    · rename_i fits
      obtain ⟨_, -, packed⟩ := Option.bind_eq_some_iff.mp packed
      obtain ⟨_, -, packed⟩ := Option.bind_eq_some_iff.mp packed
      obtain ⟨_, -, packed⟩ := Option.bind_eq_some_iff.mp packed
      obtain ⟨_, -, packed⟩ := Option.bind_eq_some_iff.mp packed
      obtain ⟨_, -, packed⟩ := Option.bind_eq_some_iff.mp packed
      obtain ⟨_, -, packed⟩ := Option.bind_eq_some_iff.mp packed
      obtain ⟨_, -, packed⟩ := Option.bind_eq_some_iff.mp packed
      obtain ⟨data, read, packed⟩ := Option.bind_eq_some_iff.mp packed
      obtain ⟨_, -, packed⟩ := Option.bind_eq_some_iff.mp packed
      obtain ⟨_, -, packed⟩ := Option.bind_eq_some_iff.mp packed
      obtain ⟨_, -, packed⟩ := Option.bind_eq_some_iff.mp packed
      injection packed with packed
      injection packed with _ _ length
      injection length with length
      refine ⟨not_not.mp plain, length, length ▸ Nat.not_lt.mp fits, ?_⟩
      by_contra outside
      rw [load, if_neg (by omega)] at read
      cases read

/-- A packet arrives as it was sent if and only if its protocol is the one there is, its length is a number of 16 bits,
and it fits into the buffer. -/
theorem pack_received_iff {outBuf : List UInt8} {outBufSize : Nat} (room : outBufSize ≤ outBuf.length)
    (readable : p.dataLen.toNat ≤ p.data.length) (address' : Nat) :
    (∃ buf data, prot.pack address outBuf outBufSize p = some ⟨0, buf, some (p.dataLen.toNat + 15)⟩ ∧
        buf.length = outBuf.length ∧ buf.drop (p.dataLen.toNat + 15) = outBuf.drop (p.dataLen.toNat + 15) ∧
        prot.checkPreamble address' buf = some 0 ∧ prot.checkPacket address' buf = some 0 ∧
        parsePacket buf (p.dataLen.toNat + 15) = some (0, some (p.received data)) ∧
        data.take p.dataLen.toNat = p.data.take p.dataLen.toNat) ↔
      p.protocol = 0 ∧ p.dataLen.toNat + 15 < 2 ^ 16 ∧ p.dataLen.toNat + 15 ≤ outBufSize := by
  constructor
  · rintro ⟨buf, data, packed, -⟩
    obtain ⟨plain, length, fits, -⟩ := prot.pack_ok address packed
    exact ⟨plain, length ▸ UInt16.toNat_lt _, fits⟩
  · rintro ⟨plain, small, fits⟩
    have passes := prot.encode_passes address' small readable (outBuf.drop (p.dataLen.toNat + 15))
    have whole := prot.length_encode readable
    refine ⟨_, _, prot.pack_eq address plain small fits room readable, ?_, ?_, passes.2.1, passes.2.2,
      prot.parsePacket_encode _ (Nat.le_add_left 15 _), prot.drop_encode readable _⟩
    · rw [List.length_append, whole, List.length_drop]
      omega
    · rw [← whole, List.drop_left]

theorem pack_received_iff_start_sample :
    ∃ buf data, pack ⟨0x4c49, 0x564f580a⟩ 3 (List.replicate 20 0xff) 20 ⟨2, 0, 0, 0, 4, 0, 0, 0, 0, 0, [1], 1, 0⟩ =
        some ⟨0, buf, some 16⟩ ∧ buf.length = 20 ∧ buf.drop 16 = [0xff, 0xff, 0xff, 0xff] ∧
      checkPreamble ⟨0x4c49, 0x564f580a⟩ 1 buf = some 0 ∧ checkPacket ⟨0x4c49, 0x564f580a⟩ 1 buf = some 0 ∧
      parsePacket buf 16 = some (0, some (CommPacket.received ⟨2, 0, 0, 0, 4, 0, 0, 0, 0, 0, [1], 1, 0⟩ data)) ∧
      data.take 1 = [1] :=
  (@pack_received_iff ⟨0x4c49, 0x564f580a⟩ 3 ⟨2, 0, 0, 0, 4, 0, 0, 0, 0, 0, [1], 1, 0⟩ (List.replicate 20 0xff) 20
    (by decide) (by decide) 1).mpr (by decide)

/-- A buffer that is one packet, of the version that `Pack` writes, and passes the checks. -/
structure Accepted (buf : List UInt8) : Prop where
  length : getPacketLen buf = some buf.length
  wrapper : getPacketWrapperLen ≤ buf.length
  version : load buf 1 1 = some [1]
  preamble : prot.checkPreamble address buf = some 0
  packet : prot.checkPacket address buf = some 0

theorem checkPreamble_iff (long : getPreambleLen ≤ buf.length) :
    prot.checkPreamble address buf = some 0 ↔
      buf.take 1 = [kSdkProtocolSof] ∧ Crc.run mcrf4xx prot.seed16 (buf.take getPreambleLen) = 0 := by
  rw [prot.checkPreamble_eq address long]
  split <;> simp_all

theorem checkPacket_iff {length : Nat} (known : getPacketLen buf = some length) (long : 4 ≤ length)
    (small : length < 2 ^ 16) (inside : length ≤ buf.length) :
    prot.checkPacket address buf = some 0 ↔
      Crc.run crc32 (prot.seed32 ^^^ 0xffffffff) (buf.take length) = residue := by
  rw [prot.checkPacket_eq address known long small inside]
  split <;> simp_all

theorem getPacketLen_lt {length : Nat} (known : getPacketLen buf = some length) : length < 2 ^ 16 := by
  obtain ⟨bytes, read, rfl⟩ := Option.map_eq_some_iff.mp known
  unfold load at read
  split at read
  · injection read with read
    have bound := ofLittleEndian_lt bytes
    have short : bytes.length ≤ 2 := read ▸ List.length_take_le ..
    exact Nat.lt_of_lt_of_le bound (Nat.pow_le_pow_right (n := 256) (by decide) short)
  · cases read

theorem getPacketLen_congr {buf' : List UInt8} (long : 4 ≤ buf.length)
    (same : buf.take getPreambleLen = buf'.take getPreambleLen) (length : buf'.length = buf.length) : getPacketLen buf' = getPacketLen buf := by
  have field : ∀ xs : List UInt8, (xs.drop 2).take 2 = ((xs.take getPreambleLen).drop 2).take 2 := by
    intro xs
    rw [List.drop_take, List.take_take]
    rfl
  rw [getPacketLen_eq long, getPacketLen_eq (length ▸ long), field buf, field buf', same]

/-- A burst of up to 16 wrong bits, wherever it falls, is found by one check or the other. -/
theorem burst_rejected {buf buf' : List UInt8} (accepted : prot.Accepted address buf) (length : buf'.length = buf.length)
    (near : Crc.Near 16 buf buf') (differs : buf' ≠ buf) (address' : Nat) :
    ¬ (prot.checkPreamble address' buf' = some 0 ∧ prot.checkPacket address' buf' = some 0) := by
  rintro ⟨preamble, packet⟩
  have enough : 15 ≤ buf.length := accepted.wrapper
  have long : getPreambleLen ≤ buf.length := Nat.le_trans (by decide) enough
  have four : 4 ≤ buf.length := Nat.le_trans (by decide) enough
  have small := getPacketLen_lt accepted.length
  have clears := ((prot.checkPreamble_iff address long).mp accepted.preamble).2
  have clears' := ((prot.checkPreamble_iff address' (length ▸ long)).mp preamble).2
  have fronts : (buf.take getPreambleLen).length = (buf'.take getPreambleLen).length := by
    rw [List.length_take, List.length_take, length]
  have front : buf.take getPreambleLen = buf'.take getPreambleLen :=
    Crc.run_burst mcrf4xx_last fronts (near.take getPreambleLen) prot.seed16 (clears.trans clears'.symm)
  -- so the length in it is still that of the buffer
  have known : getPacketLen buf' = some buf'.length := by
    rw [getPacketLen_congr four front length, accepted.length, length]
  have left := (prot.checkPacket_iff address accepted.length four small le_rfl).mp accepted.packet
  have left' := (prot.checkPacket_iff address' known (length ▸ four) (length ▸ small) le_rfl).mp packet
  rw [List.take_length] at left left'
  exact differs (Crc.run_burst crc32_last length.symm (near.mono (by decide)) _ (left.trans left'.symm)).symm

theorem burst_rejected_start_sample :
    ¬ (checkPreamble ⟨0x4c49, 0x564f580a⟩ 2 [170, 1, 16, 0, 2, 0, 0, 0, 188, 0, 5, 0, 34, 119, 109, 79] = some 0 ∧
      checkPacket ⟨0x4c49, 0x564f580a⟩ 2 [170, 1, 16, 0, 2, 0, 0, 0, 188, 0, 5, 0, 34, 119, 109, 79] = some 0) :=
  @burst_rejected ⟨0x4c49, 0x564f580a⟩ 0 [170, 1, 16, 0, 2, 0, 0, 0, 188, 0, 4, 1, 34, 119, 109, 79]
    [170, 1, 16, 0, 2, 0, 0, 0, 188, 0, 5, 0, 34, 119, 109, 79]
    ⟨by decide, by decide, by decide, by decide +kernel, by decide +kernel⟩ rfl ⟨80, by decide, by decide⟩ (by decide) 2

end LivoxProtocol

end CyberRT.Livox
