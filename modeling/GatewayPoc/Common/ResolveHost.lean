import GatewayPoc.Core.Decimal
import Mathlib.Tactic.SplitIfs

/-!
# Resolving a host name

`common/utils/resolve_host.cpp`: `resolveHost` asks `getaddrinfo` for the addresses of a host and
returns the first as text.  It reads each as a `sockaddr_in`, so the model keeps the addresses as
they lie in memory.  The resolver and the text of IPv6 addresses are parameters.

* `Common.SockAddr.memory`, `Common.sinAddr` : the layout of the two families, and the reading as
  `sockaddr_in`.  `Common.sinAddr_inet6` : of an IPv6 address this is the flow label.
* `Common.inetNtoa_injective` : the text of an IPv4 address determines it.
* `Common.resolveHost_sound_iff` : **the result is right exactly if the first address is not an IPv6
  address**, but for a flow label that looks like an address of the list.
-/

namespace GatewayPoc

namespace Common

/-- Four bytes, as they lie in memory. -/
structure Word where
  b0 : UInt8
  b1 : UInt8
  b2 : UInt8
  b3 : UInt8
  deriving DecidableEq, Repr

/-- `in6_addr`. -/
structure In6Addr where
  w0 : Word
  w1 : Word
  w2 : Word
  w3 : Word
  deriving DecidableEq, Repr

/-- What `ai_addr` points to: a `sockaddr_in` or a `sockaddr_in6`. -/
inductive SockAddr where
  | inet (port : UInt8 × UInt8) (addr : Word)
  | inet6 (port : UInt8 × UInt8) (flowinfo : Word) (addr : In6Addr) (scopeId : Word)
  deriving DecidableEq, Repr

/-- The address families. -/
inductive Family where
  | unspec
  | inet
  | inet6
  deriving DecidableEq, Repr

/-- The socket types that are asked for. -/
inductive SockType where
  | any
  | stream
  deriving DecidableEq, Repr

/-- `addrinfo`, with what the source uses of it; `none` is the null pointer. -/
structure AddrInfo where
  aiFamily : Family
  aiSocktype : SockType
  aiAddr : Option SockAddr
  deriving DecidableEq, Repr

/-- The bytes of a word. -/
def Word.bytes (w : Word) : Bytes := [w.b0, w.b1, w.b2, w.b3]

/-- The bytes of an IPv6 address. -/
def In6Addr.bytes (a : In6Addr) : Bytes := a.w0.bytes ++ a.w1.bytes ++ a.w2.bytes ++ a.w3.bytes

/-- A socket address in memory: family, port, and then what the family has. -/
def SockAddr.memory : SockAddr → Bytes
  -- `AF_INET` is 2; eight bytes of padding follow the address
  | inet port addr => [2, 0] ++ [port.1, port.2] ++ addr.bytes ++ List.replicate 8 0
  -- `AF_INET6` is 10
  | inet6 port flowinfo addr scopeId =>
    [10, 0] ++ [port.1, port.2] ++ flowinfo.bytes ++ addr.bytes ++ scopeId.bytes

/-- `sockAddr->sin_addr` of a `sockaddr_in` in memory: the four bytes after family and port. -/
def sinAddr (memory : Bytes) : Word :=
  ⟨memory.getD 4 0, memory.getD 5 0, memory.getD 6 0, memory.getD 7 0⟩

/-- `.`. -/
def dot : UInt8 := 46

/-- `inet_ntoa`. -/
def inetNtoa (a : Word) : Bytes :=
  Decimal.text a.b0.toNat ++ dot :: (Decimal.text a.b1.toNat ++ dot ::
    (Decimal.text a.b2.toNat ++ dot :: Decimal.text a.b3.toNat))

/-- The loop over the results. -/
def firstAddress : List AddrInfo → Bytes
  | [] => []
  | it :: rest =>
    match it.aiAddr with
    | none => firstAddress rest
    | some sockAddr => inetNtoa (sinAddr sockAddr.memory)

/-- The `hints`. -/
def hints : AddrInfo := ⟨.unspec, .stream, none⟩

/-- `common::resolveHost`; `getaddrinfo` gives its results for a host, a service and hints, or
fails. -/
def resolveHost (getaddrinfo : Bytes → Bytes → AddrInfo → Option (List AddrInfo))
    (hostname : Bytes) : Bytes :=
  match getaddrinfo hostname (ascii "http") hints with
  | none => []
  | some results => firstAddress results

/-! ### What is read of an address -/

@[simp] theorem sinAddr_inet (port : UInt8 × UInt8) (addr : Word) :
    sinAddr (SockAddr.inet port addr).memory = addr := rfl

@[simp] theorem sinAddr_inet6 (port : UInt8 × UInt8) (flowinfo : Word) (addr : In6Addr)
    (scopeId : Word) : sinAddr (SockAddr.inet6 port flowinfo addr scopeId).memory = flowinfo := rfl

theorem inetNtoa_ne_nil (a : Word) : inetNtoa a ≠ [] := by
  simp [inetNtoa]

/-- A dotted number consists of digits and dots. -/
theorem mem_inetNtoa {a : Word} {b : UInt8} (h : b ∈ inetNtoa a) :
    Decimal.isDigit b = true ∨ b = dot := by
  simp only [inetNtoa, List.mem_append, List.mem_cons] at h
  rcases h with h | rfl | h | rfl | h | rfl | h
  · exact Or.inl (Decimal.isDigit_of_mem_text b h)
  · exact Or.inr rfl
  · exact Or.inl (Decimal.isDigit_of_mem_text b h)
  · exact Or.inr rfl
  · exact Or.inl (Decimal.isDigit_of_mem_text b h)
  · exact Or.inr rfl
  · exact Or.inl (Decimal.isDigit_of_mem_text b h)

/-- The text of an IPv4 address determines it. -/
theorem inetNtoa_injective {a b : Word} (h : inetNtoa a = inetNtoa b) : a = b := by
  have hdot : Decimal.isDigit dot = false := by decide
  have hbyte {x y : UInt8} (hxy : Decimal.text x.toNat = Decimal.text y.toNat) : x = y := by
    refine UInt8.toNat_inj.1 ?_
    rw [← Decimal.value_text x.toNat, hxy, Decimal.value_text]
  obtain ⟨h0, h⟩ := Decimal.append_sep_inj hdot Decimal.isDigit_of_mem_text
    Decimal.isDigit_of_mem_text h
  obtain ⟨h1, h⟩ := Decimal.append_sep_inj hdot Decimal.isDigit_of_mem_text
    Decimal.isDigit_of_mem_text h
  obtain ⟨h2, h3⟩ := Decimal.append_sep_inj hdot Decimal.isDigit_of_mem_text
    Decimal.isDigit_of_mem_text h
  obtain ⟨a0, a1, a2, a3⟩ := a
  obtain ⟨c0, c1, c2, c3⟩ := b
  exact Word.mk.injEq .. ▸ ⟨hbyte h0, hbyte h1, hbyte h2, hbyte h3⟩

/-- The loop stops at the first result that has an address. -/
theorem firstAddress_eq (results : List AddrInfo) :
    firstAddress results =
      ((results.findSome? AddrInfo.aiAddr).map fun a => inetNtoa (sinAddr a.memory)).getD [] := by
  induction results with
  | nil => rfl
  | cons it rest ih =>
    simp only [firstAddress, List.findSome?_cons]
    cases it.aiAddr with
    | none => exact ih
    | some sockAddr => rfl

/-! ### The result -/

/-- A text form of IPv6 addresses. -/
structure Ipv6Text where
  text : In6Addr → Bytes
  /-- There is a colon between the groups. -/
  colon_mem : ∀ a, 58 ∈ text a

/-- The text of a socket address. -/
def SockAddr.text (ipv6 : Ipv6Text) : SockAddr → Bytes
  | inet _ addr => inetNtoa addr
  | inet6 _ _ addr _ => ipv6.text addr

/-- One of the results has this address. -/
def Has (results : List AddrInfo) (a : SockAddr) : Prop := ∃ it ∈ results, it.aiAddr = some a

/-- The result `ip` is empty or the text of an address of the list, and not empty if the list has an
IPv4 address. -/
structure Sound (ipv6 : Ipv6Text) (results : List AddrInfo) (ip : Bytes) : Prop where
  listed : ip = [] ∨ ∃ a, Has results a ∧ ip = a.text ipv6
  found : (∃ port addr, Has results (.inet port addr)) → ip ≠ []

variable {results : List AddrInfo} {ipv6 : Ipv6Text}

theorem has_of_findSome {a : SockAddr} (h : results.findSome? AddrInfo.aiAddr = some a) :
    Has results a := List.exists_of_findSome?_eq_some h

/-- No IPv6 address is written like an IPv4 address. -/
theorem text_ne_inetNtoa (a : In6Addr) (b : Word) : ipv6.text a ≠ inetNtoa b := by
  intro h
  have hcolon := ipv6.colon_mem a
  rw [h] at hcolon
  rcases mem_inetNtoa hcolon with hdigit | hdot
  · cases hdigit
  · cases hdot

/-- The empty string is right if no result has an address. -/
theorem sound_nil (h : results.findSome? AddrInfo.aiAddr = none) : Sound ipv6 results [] where
  listed := Or.inl rfl
  found := by
    rintro ⟨port, addr, it, hit, haddr⟩
    rw [List.findSome?_eq_none_iff.1 h it hit] at haddr
    cases haddr

/-- A dotted number is right exactly if the list has this IPv4 address. -/
theorem sound_inetNtoa_iff (a : Word) :
    Sound ipv6 results (inetNtoa a) ↔ ∃ port, Has results (.inet port a) := by
  constructor
  · rintro ⟨hempty | ⟨b, hb, htext⟩, -⟩
    · exact absurd hempty (inetNtoa_ne_nil a)
    · cases b with
      | inet port addr =>
        obtain rfl := inetNtoa_injective htext
        exact ⟨port, hb⟩
      | inet6 port flowinfo addr scopeId => exact absurd htext.symm (text_ne_inetNtoa addr a)
  · rintro ⟨port, hhas⟩
    exact ⟨Or.inr ⟨_, hhas, rfl⟩, fun _ => inetNtoa_ne_nil a⟩

/-- **The resolved address comes from the resolver exactly if the first address of the list is not
an IPv6 address.**  Of an IPv6 address the flow label is taken for the address; the result is right
by accident if the list has an IPv4 address with these four bytes. -/
theorem resolveHost_sound_iff
    {getaddrinfo : Bytes → Bytes → AddrInfo → Option (List AddrInfo)} {hostname : Bytes}
    (ipv6 : Ipv6Text) (h : getaddrinfo hostname (ascii "http") hints = some results) :
    Sound ipv6 results (resolveHost getaddrinfo hostname) ↔
      ∀ port flowinfo addr scopeId,
        results.findSome? AddrInfo.aiAddr = some (.inet6 port flowinfo addr scopeId) →
        ∃ port', Has results (.inet port' flowinfo) := by
  have hip : resolveHost getaddrinfo hostname = firstAddress results := by
    simp only [resolveHost, h]
  rw [hip, firstAddress_eq]
  cases hfirst : results.findSome? AddrInfo.aiAddr with
  | none =>
    refine iff_of_true (sound_nil hfirst) ?_
    rintro _ _ _ _ ⟨⟩
  | some a =>
    cases a with
    | inet port addr =>
      refine iff_of_true ((sound_inetNtoa_iff addr).2 ⟨port, has_of_findSome hfirst⟩) ?_
      rintro _ _ _ _ ⟨⟩
    | inet6 port flowinfo addr scopeId =>
      simp only [Option.map_some, Option.getD_some, sinAddr_inet6, sound_inetNtoa_iff,
        Option.some.injEq, SockAddr.inet6.injEq]
      constructor
      · rintro hhas _ _ _ _ ⟨-, rfl, -, -⟩
        exact hhas
      · intro hcondition
        exact hcondition port flowinfo addr scopeId ⟨rfl, rfl, rfl, rfl⟩

/-- `127.0.0.1`, port 80. -/
def loopback : AddrInfo := ⟨.inet, .stream, some (.inet (0, 80) ⟨127, 0, 0, 1⟩)⟩

/-- `::1`. -/
def loopback6Addr : In6Addr := ⟨⟨0, 0, 0, 0⟩, ⟨0, 0, 0, 0⟩, ⟨0, 0, 0, 0⟩, ⟨0, 0, 0, 1⟩⟩

/-- `::1`, port 80, as a resolver gives it. -/
def loopback6 : AddrInfo :=
  ⟨.inet6, .stream, some (.inet6 (0, 80) ⟨0, 0, 0, 0⟩ loopback6Addr ⟨0, 0, 0, 0⟩)⟩

/-- The text of `::1`; other addresses do not occur here. -/
def loopbackText : Ipv6Text where
  text a := if a = loopback6Addr then ascii "::1" else ascii "::"
  colon_mem a := by split_ifs <;> decide

theorem resolveHost_sound_sample :
    Sound loopbackText [loopback, loopback6]
      (resolveHost (fun _ _ _ => some [loopback, loopback6]) (ascii "localhost")) := by
  refine (resolveHost_sound_iff loopbackText rfl).2 ?_
  rintro _ _ _ _ ⟨⟩

/-- Where `::1` comes first, the result is `0.0.0.0`. -/
theorem localhost_not_sound :
    resolveHost (fun _ _ _ => some [loopback6, loopback]) (ascii "localhost") = ascii "0.0.0.0" ∧
      ¬ Sound loopbackText [loopback6, loopback]
        (resolveHost (fun _ _ _ => some [loopback6, loopback]) (ascii "localhost")) := by
  have hip : resolveHost (fun _ _ _ => some [loopback6, loopback]) (ascii "localhost") =
      ascii "0.0.0.0" := by decide +kernel
  have htext : ascii "0.0.0.0" = inetNtoa ⟨0, 0, 0, 0⟩ := by decide +kernel
  refine ⟨hip, ?_⟩
  rw [hip, htext, sound_inetNtoa_iff]
  rintro ⟨port, it, hit, haddr⟩
  simp only [List.mem_cons, List.not_mem_nil, or_false] at hit
  rcases hit with rfl | rfl
  · cases haddr
  · cases haddr

end Common

end GatewayPoc
