import ActiveDefense.Firewall.Checked
import ActiveDefense.Lib.OnesComplement

/-!
# The replies to rejected packets

To a packet over IPv4 that is not TCP the program answers with an ICMP message of its own making:
a header with the checksum of the message, and the first 28 bytes of the packet. The checksum makes
the words of the message add up to all ones (`icmpv4Checksum_sum`). The 28 bytes are an IP header
without options and eight bytes more; the header of a packet with options, or what comes after it,
is cut off (`reply_echoes_iff`).
-/

namespace ActiveDefense.Firewall.Checked

/-! ## The checksum -/

/-- The big-endian words of a message; a zero byte pads it. -/
def words : List UInt8 → List Nat
  | a :: b :: rest => (a.toNat * 256 + b.toNat) :: words rest
  | [a] => [a.toNat * 256]
  | [] => []

theorem words_lt (data : List UInt8) : ∀ word ∈ words data, word < 65536 := by
  fun_induction words data with
  | case1 a b rest ih =>
    have ha := a.toNat_lt
    have hb := b.toNat_lt
    exact List.forall_mem_cons.mpr ⟨by omega, ih⟩
  | case2 a =>
    have ha := a.toNat_lt
    exact List.forall_mem_singleton.mpr (by omega)
  | case3 => exact fun word h => absurd h List.not_mem_nil

/-- The first loop makes the sum of the words. -/
theorem toNat_of_sumWords {data : List UInt8} {sum s : UInt32} (h : sumWords data sum = .ok s) :
    s.toNat = sum.toNat + (words data).sum := by
  induction data, sum using sumWords.induct generalizing s with
  | case1 a b rest sum ih =>
    have ha := a.toNat_lt
    have hb := b.toNat_lt
    rw [sumWords] at h
    obtain ⟨sum', hsum', hrest⟩ := bind_eq_ok.mp h
    have hword : (UInt32.ofNat (a.toNat * 256 + b.toNat)).toNat = a.toNat * 256 + b.toNat :=
      Nat.mod_eq_of_lt (by omega)
    rw [ih _ hrest, toNat_of_sumU32 hsum', hword, words, List.sum_cons, Nat.add_assoc]
  | case2 a sum =>
    have ha := a.toNat_lt
    have hword : (a.toUInt32 <<< 8).toNat = a.toNat * 256 := by
      simp [UInt32.toNat_shiftLeft, Nat.shiftLeft_eq]
      omega
    rw [sumWords] at h
    rw [toNat_of_sumU32 h, hword, words, List.sum_singleton]
  | case3 sum =>
    cases h
    rfl

/-- The second loop adds the carries back until a word is left. -/
theorem reduces_of_foldCarries {sum s : UInt32} (h : foldCarries sum = .ok s) :
    Reduces 65536 sum.toNat s.toNat ∧ s.toNat < 65536 := by
  induction sum using foldCarries.induct generalizing s with
  | case1 sum hsum ih =>
    obtain ⟨hlow, hhigh⟩ := toNat_carries sum
    have hstep : ((sum &&& (0xffff : UInt32)) + (sum >>> 16)).toNat =
        carryBack 65536 sum.toNat := by
      rw [UInt32.toNat_add, Nat.mod_eq_of_lt (carries_fit sum), hlow, hhigh, carryBack]
    rw [foldCarries, dif_pos hsum, sumU32_of_lt (carries_fit sum)] at h
    obtain ⟨hreduces, hlt⟩ := ih h
    rw [hstep] at hreduces
    exact ⟨(Reduces.carryBack (by decide) _).trans hreduces, hlt⟩
  | case2 sum hsum =>
    rw [foldCarries, dif_neg hsum] at h
    cases h
    have hzero : (sum >>> 16).toNat = 0 := congrArg UInt32.toNat (not_not.mp hsum)
    rw [(toNat_carries sum).2] at hzero
    exact ⟨.refl _ _, Nat.lt_of_div_eq_zero (by decide) hzero⟩

/-- The message with a checksum in its bytes 2 and 3, big-endian. -/
def withChecksum (data : List UInt8) (checksum : UInt16) : List UInt8 :=
  (data.set 2 (checksum >>> 8).toUInt8).set 3 (checksum &&& 0xff).toUInt8

/-- The bytes of a checksum make it up. -/
theorem toNat_checksum (checksum : UInt16) :
    (checksum >>> 8).toUInt8.toNat * 256 + (checksum &&& 0xff).toUInt8.toNat =
      checksum.toNat := by
  have hlt := checksum.toNat_lt
  have hhigh : (checksum >>> 8).toUInt8.toNat = checksum.toNat / 256 := by
    simp [UInt16.toNat_shiftRight, Nat.shiftRight_eq_div_pow]
    omega
  have hlow : (checksum &&& 0xff).toUInt8.toNat = checksum.toNat % 256 := by
    have hand : (checksum &&& 0xff).toNat = checksum.toNat % 256 := by
      rw [UInt16.toNat_and]
      exact Nat.and_two_pow_sub_one_eq_mod checksum.toNat 8
    rw [UInt16.toNat_toUInt8, hand, Nat.mod_mod]
  omega

/-- Where the bytes were zero, the checksum comes to the sum. -/
theorem sum_words_withChecksum {data : List UInt8} (h2 : data[2]? = some 0)
    (h3 : data[3]? = some 0) (checksum : UInt16) :
    (words (withChecksum data checksum)).sum = (words data).sum + checksum.toNat := by
  match data with
  | a :: b :: c :: d :: rest =>
    obtain rfl : c = 0 := Option.some.inj h2
    obtain rfl : d = 0 := Option.some.inj h3
    have hset : withChecksum (a :: b :: 0 :: 0 :: rest) checksum =
        a :: b :: (checksum >>> 8).toUInt8 :: (checksum &&& 0xff).toUInt8 :: rest := rfl
    have hzero : (0 : UInt8).toNat * 256 + (0 : UInt8).toNat = 0 := rfl
    rw [hset]
    simp only [words, List.sum_cons, toNat_checksum, hzero]
    rw [Nat.zero_add, Nat.add_comm checksum.toNat, ← Nat.add_assoc]

/-- No sum of `icmpv4_checksum` overflows for a message that an IP packet has room for, and the
words of the message add up to all ones once the checksum is in the two bytes that are kept free for
it. -/
theorem icmpv4Checksum_sum {data : List UInt8} (hlen : data.length ≤ 65535)
    (h2 : data[2]? = some 0) (h3 : data[3]? = some 0) :
    ∃ checksum, icmpv4Checksum data = .ok checksum ∧
      onesSum 65536 (words (withChecksum data checksum)) = 0xffff := by
  have hfits : (0 : UInt32).toNat + 65536 * data.length < 2 ^ 32 := by
    rw [UInt32.toNat_zero]
    omega
  obtain ⟨sum, hsum⟩ := exists_sumWords hfits
  obtain ⟨folded, hfolded⟩ := exists_foldCarries sum
  obtain ⟨hreduces, hlt⟩ := reduces_of_foldCarries hfolded
  have htotal : sum.toNat = (words data).sum := by
    rw [toNat_of_sumWords hsum, UInt32.toNat_zero, Nat.zero_add]
  have hcomplement : (~~~ folded.toUInt16).toNat = 65536 - 1 - folded.toNat := by
    rw [UInt16.toNat_not, UInt32.toNat_toUInt16, Nat.mod_eq_of_lt hlt]
  refine ⟨~~~ folded.toUInt16, bind_eq_ok.mpr ⟨sum, hsum, bind_eq_ok.mpr ⟨folded, hfolded, rfl⟩⟩,
    onesSum_complement (by decide) (words_lt _) hreduces hlt ?_⟩
  rw [sum_words_withChecksum h2 h3, hcomplement, htotal]

/-- The message to an empty packet. -/
theorem icmpv4Checksum_sum_empty :
    ∃ checksum, icmpv4Checksum [3, 3, 0, 0, 0, 0, 0, 0] = .ok checksum ∧
      onesSum 65536 (words (withChecksum [3, 3, 0, 0, 0, 0, 0, 0] checksum)) = 0xffff :=
  icmpv4Checksum_sum (by decide) rfl rfl

/-! ## What a reply echoes -/

/-- The length of the header of an IPv4 packet, by the words that its first byte gives. -/
def headerLen (raw : List UInt8) : Nat := 4 * ((raw.getD 0 0).toNat % 16)

/-- The length of an IPv4 packet, by its header. -/
def totalLen (raw : List UInt8) : Nat := (raw.getD 2 0).toNat * 256 + (raw.getD 3 0).toNat

/-- Bytes that begin with a valid IPv4 header, and hold the packet that it is the header of. -/
structure Ipv4Packet (raw : List UInt8) : Prop where
  version : (raw.getD 0 0).toNat / 16 = 4
  header : 20 ≤ headerLen raw
  header_le : headerLen raw ≤ totalLen raw
  total_le : totalLen raw ≤ raw.length

/-- The data of an ICMP message begin with the header of the packet and the first eight bytes after
it, or all of them if they are fewer. -/
def Echoes (raw message : List UInt8) : Prop :=
  raw.take (min (headerLen raw + 8) (totalLen raw)) <+: message.drop 8

/-- To a packet over IPv4 that is not TCP a message is made, with the first 28 bytes of the packet in
it. -/
theorem exists_message {pkt : ParsedPacket} {src dst : Ipv4Addr} (hsrc : pkt.srcIp = .v4 src)
    (hdst : pkt.dstIp = .v4 dst) (hproto : pkt.proto ≠ .tcp) (raw : List UInt8) :
    ∃ message, reject pkt raw = .ok (some message) ∧ message.drop 8 = raw.take 28 := by
  have hlen : ([3, 3, 0, 0, 0, 0, 0, 0] ++ raw.take 28).length ≤ 36 := by
    rw [List.length_append, List.length_take]
    exact Nat.add_le_add_left (Nat.min_le_left 28 raw.length) 8
  obtain ⟨checksum, hchecksum⟩ := exists_icmpv4Checksum hlen
  obtain ⟨message, hmessage, hdata⟩ : ∃ message, icmpUnreachableV4 raw = .ok message ∧
      message.drop 8 = raw.take 28 :=
    ⟨_, bind_eq_ok.mpr ⟨checksum, hchecksum, rfl⟩, rfl⟩
  refine ⟨message, ?_, hdata⟩
  rw [reject, hsrc, hdst]
  cases hcase : pkt.proto with
  | tcp => exact absurd hcase hproto
  | udp | icmp | other =>
    dsimp only
    rw [hmessage]
    rfl

theorem echoes_iff_of_take {raw message : List UInt8} (hraw : Ipv4Packet raw)
    (h : message.drop 8 = raw.take 28) :
    Echoes raw message ↔ headerLen raw = 20 ∨ totalLen raw ≤ 28 := by
  have htotal := hraw.total_le
  have hheader := hraw.header
  rw [Echoes, h, List.prefix_take_iff, List.length_take, and_iff_right (List.take_prefix _ raw)]
  omega

/-- The message echoes what it has to exactly if the header of the packet has no options or the
packet is no longer than 28 bytes. -/
theorem reply_echoes_iff {pkt : ParsedPacket} {src dst : Ipv4Addr} (hsrc : pkt.srcIp = .v4 src)
    (hdst : pkt.dstIp = .v4 dst) (hproto : pkt.proto ≠ .tcp) {raw : List UInt8}
    (hraw : Ipv4Packet raw) :
    ∃ message, reject pkt raw = .ok (some message) ∧
      (Echoes raw message ↔ headerLen raw = 20 ∨ totalLen raw ≤ 28) := by
  obtain ⟨message, hmessage, hdata⟩ := exists_message hsrc hdst hproto raw
  exact ⟨message, hmessage, echoes_iff_of_take hraw hdata⟩

/-- A UDP packet from 10.0.0.1 to 10.0.0.2 as it is parsed. -/
def udpPacket : ParsedPacket where
  srcIp := .v4 0x0a000001
  dstIp := .v4 0x0a000002
  proto := .udp
  srcPort := 12345
  dstPort := 53
  tcpFlags := none
  payloadLen := 4

/-- Its header without options, the header of UDP and four bytes. -/
def udpBytes : List UInt8 :=
  [0x45, 0, 0, 32, 0, 0, 0, 0, 64, 17, 0, 0, 10, 0, 0, 1, 10, 0, 0, 2,
    0x30, 0x39, 0, 53, 0, 12, 0, 0, 1, 2, 3, 4]

theorem reply_echoes_iff_udpBytes :
    ∃ message, reject udpPacket udpBytes = .ok (some message) ∧ Echoes udpBytes message := by
  have hraw : Ipv4Packet udpBytes := ⟨by decide, by decide, by decide, by decide⟩
  obtain ⟨message, hmessage, hechoes⟩ :=
    reply_echoes_iff (show udpPacket.srcIp = _ from rfl) rfl (by decide) hraw
  exact ⟨message, hmessage, hechoes.mpr (.inl (by decide))⟩

/-- The same packet with four bytes of options. -/
def optionBytes : List UInt8 :=
  [0x46, 0, 0, 36, 0, 0, 0, 0, 64, 17, 0, 0, 10, 0, 0, 1, 10, 0, 0, 2, 1, 1, 1, 0,
    0x30, 0x39, 0, 53, 0, 12, 0, 0, 1, 2, 3, 4]

/-- The message to it ends in the middle of the header of UDP. -/
theorem not_reply_echoes :
    ¬ ∀ (pkt : ParsedPacket) (src dst : Ipv4Addr) (raw : List UInt8), pkt.srcIp = .v4 src →
      pkt.dstIp = .v4 dst → pkt.proto ≠ .tcp → Ipv4Packet raw →
        ∃ message, reject pkt raw = .ok (some message) ∧ Echoes raw message := by
  intro h
  have hraw : Ipv4Packet optionBytes := ⟨by decide, by decide, by decide, by decide⟩
  obtain ⟨message, hmessage, hechoes⟩ := h udpPacket _ _ optionBytes rfl rfl (by decide) hraw
  obtain ⟨message', hmessage', hdata⟩ :=
    exists_message (show udpPacket.srcIp = _ from rfl) rfl (by decide) optionBytes
  obtain rfl : message = message' :=
    Option.some.inj (Except.ok.inj (hmessage.symm.trans hmessage'))
  rcases (echoes_iff_of_take hraw hdata).mp hechoes with hlen | hlen
  · exact absurd hlen (by decide)
  · exact absurd hlen (by decide)

end ActiveDefense.Firewall.Checked
