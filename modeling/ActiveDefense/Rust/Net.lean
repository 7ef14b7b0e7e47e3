import ActiveDefense.Rust.Text
import ActiveDefense.Lib.Prefix

/-!
# `std::net` addresses and CIDR networks

An IPv4 or IPv6 address is its bits in network order, so that the order of `Ord` is the order of
the bits and a prefix is a number of leading bits. A CIDR network (`ipnet::IpNet`,
`ipnetwork::Ipv4Network`) is a prefix whose length fits its addresses, and contains the addresses
that share it.
-/

namespace ActiveDefense

/-- `std::net::Ipv4Addr`. -/
abbrev Ipv4Addr := BitVec 32

/-- `std::net::Ipv6Addr`. -/
abbrev Ipv6Addr := BitVec 128

/-- `std::net::IpAddr`. -/
inductive IpAddr where
  | v4 (ip : Ipv4Addr)
  | v6 (ip : Ipv6Addr)
deriving DecidableEq, Repr

/-- The derived order: every IPv4 address is below every IPv6 address. -/
def IpAddr.le : IpAddr → IpAddr → Bool
  | .v4 a, .v4 b => a ≤ b
  | .v4 _, .v6 _ => true
  | .v6 _, .v4 _ => false
  | .v6 a, .v6 b => a ≤ b

/-! ## Octets and text -/

/-- `Ipv4Addr::new`. -/
def Ipv4Addr.new (a b c d : UInt8) : Ipv4Addr :=
  BitVec.ofNat 32 (((a.toNat * 256 + b.toNat) * 256 + c.toNat) * 256 + d.toNat)

/-- `Ipv4Addr::octets`, the octet `i` of four. -/
def Ipv4Addr.octet (ip : Ipv4Addr) (i : Nat) : UInt8 := UInt8.ofNat (ip.toNat / 256 ^ (3 - i))

theorem Ipv4Addr.new_octet (ip : Ipv4Addr) :
    Ipv4Addr.new (octet ip 0) (octet ip 1) (octet ip 2) (octet ip 3) = ip := by
  apply BitVec.eq_of_toNat_eq
  have hlt := ip.isLt
  simp only [new, octet, UInt8.toNat_ofNat', BitVec.toNat_ofNat]
  omega

/-- `Display` of an IPv4 address. -/
def Ipv4Addr.display (ip : Ipv4Addr) : Str :=
  decimal (octet ip 0).toNat ++ '.' :: (decimal (octet ip 1).toNat ++
    '.' :: (decimal (octet ip 2).toNat ++ '.' :: decimal (octet ip 3).toNat))

/-- `Ipv6Addr::segments`. -/
def Ipv6Addr.segments (ip : Ipv6Addr) : List Nat :=
  (List.range 8).map fun i => ip.toNat / 65536 ^ (7 - i) % 65536

/-- The first of the longest runs of zeros, by its start and length. -/
def longestZeros (segments : List Nat) : Nat × Nat :=
  (segments.zipIdx.foldl (fun (current, longest) (segment, i) =>
    if segment = 0 then
      let current := if current.2 = 0 then (i, 1) else (current.1, current.2 + 1)
      (current, if longest.2 < current.2 then current else longest)
    else ((0, 0), longest)) ((0, 0), (0, 0))).2

/-- Segments in hexadecimal, with colons between them. -/
def displaySegments (segments : List Nat) : Str :=
  ((segments.map (Nat.toDigits 16)).intersperse [':']).flatten

/-- `Display` of an IPv6 address. -/
def Ipv6Addr.display (ip : Ipv6Addr) : Str :=
  if ip.toNat / 2 ^ 32 = 0xffff then
    "::ffff:".toList ++ Ipv4Addr.display (BitVec.ofNat 32 ip.toNat)
  else
    let (start, len) := longestZeros (segments ip)
    if 1 < len then
      displaySegments ((segments ip).take start) ++ "::".toList ++
        displaySegments ((segments ip).drop (start + len))
    else displaySegments (segments ip)

example : Ipv6Addr.display (0x20010db8000000010000000000000001 : BitVec 128) =
    "2001:db8:0:1::1".toList := by
  decide +kernel

/-- `Display` of an IP address. -/
def IpAddr.display : IpAddr → Str
  | .v4 ip => Ipv4Addr.display ip
  | .v6 ip => Ipv6Addr.display ip

/-- An octet of the textual form: one to three digits, no leading zero, at most 255. -/
def readOctet (s : Str) : Option (UInt8 × Str) :=
  let ds := s.takeWhile Char.isDigit
  let n := Nat.ofDigitChars 10 ds 0
  if ds = [] ∨ 3 < ds.length ∨ (ds.head? = some '0' ∧ 1 < ds.length) ∨ 255 < n then none
  else some (UInt8.ofNat n, s.dropWhile Char.isDigit)

/-- An octet after the separator. -/
def readDotOctet : Str → Option (UInt8 × Str)
  | '.' :: s => readOctet s
  | _ => none

/-- `<Ipv4Addr as FromStr>::from_str`; its one error is the text `AddrParseError` displays. -/
def parseIpv4 (s : Str) : Except String Ipv4Addr :=
  let addr := do
    let (a, s) ← readOctet s
    let (b, s) ← readDotOctet s
    let (c, s) ← readDotOctet s
    let (d, s) ← readDotOctet s
    if s = [] then some (Ipv4Addr.new a b c d) else none
  match addr with
  | some ip => .ok ip
  | none => .error "invalid IPv4 address syntax"

/-- The decimal digits of an octet read as that octet, whatever follows that is not a digit. -/
theorem readOctet_decimal (o : UInt8) {s : Str} (hs : ∀ c ∈ s.head?, c.isDigit = false) :
    readOctet (decimal o.toNat ++ s) = some (o, s) := by
  have hdig : ∀ c ∈ decimal o.toNat, c.isDigit := fun c hc => isDigit_of_mem_decimal hc
  have htake : (decimal o.toNat ++ s).takeWhile Char.isDigit = decimal o.toNat := by
    rw [List.takeWhile_append_of_pos hdig]
    cases s with
    | nil => simp
    | cons c s => simp [hs c rfl]
  have hdrop : (decimal o.toNat ++ s).dropWhile Char.isDigit = s := by
    rw [List.dropWhile_append_of_pos hdig]
    cases s with
    | nil => simp
    | cons c s => simp [hs c rfl]
  have hval : Nat.ofDigitChars 10 (decimal o.toNat) 0 = o.toNat := Nat.ofDigitChars_ten_toDigits
  have hshape : ∀ n < 256, ¬ (decimal n = [] ∨ 3 < (decimal n).length ∨
      ((decimal n).head? = some '0' ∧ 1 < (decimal n).length) ∨ 255 < n) := by decide +kernel
  rw [readOctet, htake, hdrop]
  simp only [hval, if_neg (hshape o.toNat o.toNat_lt)]
  simp

theorem parseIpv4_display (ip : Ipv4Addr) : parseIpv4 ip.display = .ok ip := by
  have hdot : ∀ s : Str, ∀ c ∈ ('.' :: s).head?, c.isDigit = false := by
    intro s c hc
    cases hc
    decide
  have h3 := readOctet_decimal (ip.octet 3) (s := []) (by simp)
  rw [List.append_nil] at h3
  unfold parseIpv4 Ipv4Addr.display
  simp only [readOctet_decimal _ (hdot _), Option.bind_eq_bind, Option.bind_some, readDotOctet, h3,
    if_true, Ipv4Addr.new_octet]

/-! ### Which characters the text has -/

theorem mem_toDigitsCore {b : Nat} (hb : 0 < b) {fuel n : Nat} {ds : Str} {c : Char}
    (h : c ∈ Nat.toDigitsCore b fuel n ds) : c ∈ ds ∨ ∃ d < b, c = Nat.digitChar d := by
  induction fuel generalizing n ds with
  | zero => exact .inl h
  | succ fuel ih =>
    rw [Nat.toDigitsCore] at h
    have hdigit : ∃ d < b, Nat.digitChar (n % b) = Nat.digitChar d :=
      ⟨n % b, Nat.mod_lt n hb, rfl⟩
    split at h
    · rcases List.mem_cons.mp h with rfl | h
      · exact .inr hdigit
      · exact .inl h
    · rcases ih h with h | h
      · rcases List.mem_cons.mp h with rfl | h
        · exact .inr hdigit
        · exact .inl h
      · exact .inr h

/-- A character of the text of an address. -/
def isAddressChar (c : Char) : Bool :=
  c = '.' || c = ':' || (List.range 16).any fun d => c = Nat.digitChar d

theorem isAddressChar_of_mem_toDigits {b n : Nat} (hb : 0 < b) (hb' : b ≤ 16) {c : Char}
    (h : c ∈ Nat.toDigits b n) : isAddressChar c = true := by
  rcases mem_toDigitsCore hb h with h | ⟨d, hd, rfl⟩
  · cases h
  · simp only [isAddressChar, Bool.or_eq_true, List.any_eq_true, decide_eq_true_eq]
    exact .inr ⟨d, List.mem_range.mpr (by omega), rfl⟩

theorem isAddressChar_of_mem_displayV4 {ip : Ipv4Addr} {c : Char} (h : c ∈ ip.display) :
    isAddressChar c = true := by
  have hdec : ∀ n, c ∈ decimal n → isAddressChar c = true := fun n hc =>
    isAddressChar_of_mem_toDigits (by decide) (by decide) hc
  simp only [Ipv4Addr.display, List.mem_append, List.mem_cons] at h
  rcases h with h | rfl | h | rfl | h | rfl | h
  · exact hdec _ h
  · decide
  · exact hdec _ h
  · decide
  · exact hdec _ h
  · decide
  · exact hdec _ h

theorem displaySegments_cons_cons (a b : Nat) (rest : List Nat) :
    displaySegments (a :: b :: rest) = Nat.toDigits 16 a ++ ':' :: displaySegments (b :: rest) := by
  simp [displaySegments]

theorem isAddressChar_of_mem_displaySegments {segments : List Nat} {c : Char}
    (h : c ∈ displaySegments segments) : isAddressChar c = true := by
  induction segments with
  | nil => cases h
  | cons a segments ih =>
    cases segments with
    | nil =>
      rw [displaySegments, List.map_cons, List.map_nil, List.intersperse_singleton,
        List.flatten_singleton] at h
      exact isAddressChar_of_mem_toDigits (by decide) (by decide) h
    | cons b rest =>
      rw [displaySegments_cons_cons, List.mem_append, List.mem_cons] at h
      rcases h with h | rfl | h
      · exact isAddressChar_of_mem_toDigits (by decide) (by decide) h
      · decide
      · exact ih h

theorem isAddressChar_of_mem_display {ip : IpAddr} {c : Char} (h : c ∈ ip.display) :
    isAddressChar c = true := by
  cases ip with
  | v4 ip => exact isAddressChar_of_mem_displayV4 h
  | v6 ip =>
    rw [IpAddr.display, Ipv6Addr.display] at h
    split at h
    · rcases List.mem_append.mp h with h | h
      · exact List.all_eq_true.mp (by decide : "::ffff:".toList.all isAddressChar = true) c h
      · exact isAddressChar_of_mem_displayV4 h
    · dsimp only at h
      split at h
      · simp only [List.mem_append] at h
        rcases h with (h | h) | h
        · exact isAddressChar_of_mem_displaySegments h
        · exact List.all_eq_true.mp (by decide : "::".toList.all isAddressChar = true) c h
        · exact isAddressChar_of_mem_displaySegments h
      · exact isAddressChar_of_mem_displaySegments h

/-- The text of an IPv6 address has a colon. -/
theorem colon_mem_displayV6 (ip : Ipv6Addr) : ':' ∈ ip.display := by
  rw [Ipv6Addr.display]
  split
  · exact List.mem_append_left _ (by decide)
  · dsimp only
    split
    · exact List.mem_append_left _ (List.mem_append_right _ (by decide))
    · have hsegments : ∃ a b rest, Ipv6Addr.segments ip = a :: b :: rest := ⟨_, _, _, rfl⟩
      obtain ⟨a, b, rest, hsegments⟩ := hsegments
      rw [hsegments, displaySegments_cons_cons]
      simp

theorem isWhitespace_of_isAddressChar {c : Char} (h : isAddressChar c = true) :
    isWhitespace c = false := by
  simp only [isAddressChar, Bool.or_eq_true, List.any_eq_true, decide_eq_true_eq] at h
  rcases h with (rfl | rfl) | ⟨d, hd, rfl⟩
  · decide
  · decide
  · exact (by decide : ∀ d ∈ List.range 16, isWhitespace (Nat.digitChar d) = false) d hd

theorem not_isWhitespace_of_mem_display {ip : IpAddr} {c : Char} (h : c ∈ ip.display) :
    isWhitespace c = false :=
  isWhitespace_of_isAddressChar (isAddressChar_of_mem_display h)

theorem display_ne_nil (ip : IpAddr) : ip.display ≠ [] := by
  cases ip with
  | v4 ip => simp [IpAddr.display, Ipv4Addr.display]
  | v6 ip => exact List.ne_nil_of_mem (colon_mem_displayV6 ip)

/-- An IPv4 address at the front of a text. -/
def readIpv4 (s : Str) : Option (Ipv4Addr × Str) := do
  let (a, s) ← readOctet s
  let (b, s) ← readDotOctet s
  let (c, s) ← readDotOctet s
  let (d, s) ← readDotOctet s
  some (Ipv4Addr.new a b c d, s)

/-- The value of a hexadecimal digit. -/
def hexDigitValue (c : Char) : Option Nat :=
  if c.isDigit then some (c.toNat - 48)
  else if 'a' ≤ c ∧ c ≤ 'f' then some (c.toNat - 87)
  else if 'A' ≤ c ∧ c ≤ 'F' then some (c.toNat - 55)
  else none

/-- A group of an IPv6 address: one to four hexadecimal digits. -/
def readGroup (s : Str) : Option (Nat × Str) :=
  let ds := s.takeWhile fun c => (hexDigitValue c).isSome
  if ds = [] ∨ 4 < ds.length then none
  else some ((ds.filterMap hexDigitValue).foldl (fun n d => 16 * n + d) 0, s.drop ds.length)

/-- The colon in front of every group but the first. -/
def readColon (first : Bool) : Str → Option Str
  | ':' :: s => if first then some (':' :: s) else some s
  | s => if first then some s else none

/-- Up to `n` groups, of which the last two may be an IPv4 address: the groups, whether they end
in such an address, and the rest. -/
def readGroups (first : Bool) : Nat → Str → List Nat × Bool × Str
  | 0, s => ([], false, s)
  | n + 1, s =>
    match if 0 < n then (readColon first s).bind readIpv4 else none with
    | some (ip, rest) => ([ip.toNat / 65536, ip.toNat % 65536], true, rest)
    | none =>
      match (readColon first s).bind readGroup with
      | none => ([], false, s)
      | some (group, rest) =>
        let (groups, ipv4, rest) := readGroups false n rest
        (group :: groups, ipv4, rest)

/-- The address of eight groups. -/
def Ipv6Addr.ofSegments (segments : List Nat) : Ipv6Addr :=
  BitVec.ofNat 128 (segments.foldl (fun n segment => 65536 * n + segment) 0)

/-- An IPv6 address at the front of a text: eight groups, or fewer around a `::`. -/
def readIpv6 (s : Str) : Option (Ipv6Addr × Str) :=
  let (head, headIpv4, s) := readGroups true 8 s
  if head.length = 8 then some (.ofSegments head, s)
  else if headIpv4 then none
  else
    match s with
    | ':' :: ':' :: s =>
      let (tail, _, s) := readGroups true (7 - head.length) s
      let zeros := List.replicate (8 - head.length - tail.length) 0
      some (.ofSegments (head ++ zeros ++ tail), s)
    | _ => none

/-- `<IpAddr as FromStr>::from_str`. -/
def parseIpAddr (s : Str) : Option IpAddr :=
  match readIpv4 s with
  | some (ip, rest) => if rest = [] then some (.v4 ip) else none
  | none =>
    match readIpv6 s with
    | some (ip, []) => some (.v6 ip)
    | _ => none

example : parseIpAddr "2001:db8::1".toList = some (.v6 0x20010db8000000000000000000000001) := by
  decide

/-! ## Networks -/

/-- A CIDR network over addresses of `w` bits. -/
structure Network (w : Nat) where
  addr : BitVec w
  prefixLen : Nat
  prefixLen_le : prefixLen ≤ w
deriving DecidableEq, Repr

/-- The length of the prefix of one IPv4 host. -/
theorem hostLen_le : 32 ≤ 32 := Nat.le_refl 32

/-- The prefix the network stands for. -/
def Network.key {w : Nat} (net : Network w) : PrefixKey w := ⟨net.prefixLen, net.addr⟩

/-- `Ipv4Network::contains`. -/
def Network.contains {w : Nat} (net : Network w) (ip : BitVec w) : Bool :=
  decide (net.key.Covers ip)

/-- `ipnetwork::Ipv4Network`. -/
abbrev Ipv4Network := Network 32

/-- `ipnet::IpNet`. -/
inductive IpNet where
  | v4 (net : Network 32)
  | v6 (net : Network 128)
deriving DecidableEq, Repr

/-- `IpNet::contains`: an address of the other family is in no network. -/
def IpNet.contains : IpNet → IpAddr → Bool
  | .v4 net, .v4 ip => net.contains ip
  | .v6 net, .v6 ip => net.contains ip
  | _, _ => false

end ActiveDefense
